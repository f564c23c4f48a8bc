import Mathlib.Data.List.Nodup
import Mathlib.Data.List.Perm.Subperm
import Mathlib.Logic.Relation
import Notebook.Graph.Reach
import Notebook.Proofs.Listing

/-!
# What a cell feeds

The output of a cell *feeds* another cell if a chain of one or more edges leads from the first to
the second. The walk of `Notebook.Graph.Reach` takes a node from its queue in each round, and
stops after a number of rounds that is fixed at the start. That is enough:

> **the walk ends by itself**: no node waits any more when it stops, and
> **the walk is exact**: `n ∈ g.descendants a ↔ g.Feeds a n`.

It ends because each round uses something up, a node that waits or the edges out of a node that is
listed. What it has listed is described by *stamps*. The start and the listed nodes have places,
the start the first one. A node that waits is stamped with the place of the node that put it into
the queue. The queue is sorted by stamps, and so is the list, and the stamp of a listed node is
the place of its earliest parent. Only the edges of the walk matter here, so the same holds
against the direction of the graph.
-/

set_option autoImplicit false

namespace Notebook

open Std

/-! ## 1. The edges as a list -/

namespace Rows

variable {α β : Type} [Ord α] [TransOrd α] [LawfulEqOrd α] [Ord β] [TransOrd β] [LawfulEqOrd β]

theorem mem_toList {r : Rows α β} {a : α} {b : β} : (a, b) ∈ r.toList ↔ b ∈ r.row a := by
  simp only [toList, List.mem_flatMap, List.mem_map, Prod.mk.injEq, Prod.exists]
  rw [row_eq]
  constructor
  · rintro ⟨x, s, hx, y, hy, rfl, rfl⟩
    rw [ExtTreeMap.mem_toList_iff_getElem?_eq_some] at hx
    rw [hx]
    exact ExtTreeSet.mem_toList.1 hy
  · intro hb
    cases ha : r.table[a]? with
    | none =>
      rw [ha] at hb
      simp at hb
    | some s =>
      rw [ha] at hb
      exact ⟨a, s, ExtTreeMap.mem_toList_iff_getElem?_eq_some.2 ha, b,
        ExtTreeSet.mem_toList.2 hb, rfl, rfl⟩

/-- A row is listed among the pairs. -/
theorem size_row_le [DecidableEq α] (r : Rows α β) (a : α) :
    (r.row a).size ≤ (r.toList.filter fun e => e.1 = a).length := by
  have hpair : Function.Injective fun b : β => (a, b) := fun b c h => congrArg Prod.snd h
  have hnodup : ((r.row a).toList.map fun b => (a, b)).Nodup :=
    List.Nodup.map hpair (nodup_setToList _)
  have hsubset : ((r.row a).toList.map fun b => (a, b)) ⊆ r.toList.filter fun e => e.1 = a := by
    intro e he
    obtain ⟨b, hb, rfl⟩ := List.mem_map.1 he
    exact List.mem_filter.2 ⟨mem_toList.2 (ExtTreeSet.mem_toList.1 hb), decide_eq_true rfl⟩
  have hlength := (List.subperm_of_subset hnodup hsubset).length_le
  rwa [List.length_map, ExtTreeSet.length_toList] at hlength

end Rows

/-! ## 2. The walk ends -/

namespace Walk

variable {next : Rows CellId CellId} {start node : CellId} {w : Walk} {rest : List CellId}

/-- A node that was listed before is passed over. -/
theorem visit_of_mem (h : node ∈ w.visited) :
    w.visit next node rest = { w with frontier := rest } :=
  if_pos h

/-- A node that was not listed is listed, and its neighbours wait behind the rest. -/
theorem visit_of_not_mem (h : node ∉ w.visited) :
    w.visit next node rest =
      { visited := w.visited.insert node
        order := w.order ++ [node]
        frontier := rest ++ (next.row node).toList.filter fun n =>
          !(w.visited.insert node).contains n } :=
  if_neg h

/-- What there is left to do: the nodes that wait, and the edges out of nodes that were not
listed. -/
def work (next : Rows CellId CellId) (w : Walk) : Nat :=
  w.frontier.length + (next.toList.filter fun e => !w.visited.contains e.1).length

/-- Listing a node uses up the edges out of it. -/
theorem length_unlisted (next : Rows CellId CellId) {visited : ExtTreeSet CellId}
    (h : node ∉ visited) :
    (next.row node).size + (next.toList.filter fun e =>
      !(visited.insert node).contains e.1).length ≤
      (next.toList.filter fun e => !visited.contains e.1).length := by
  have hother : ∀ n, (!(visited.insert node).contains n) =
      (!decide (n = node) && !visited.contains n) := by
    intro n
    simp only [ExtTreeSet.contains_insert, Bool.not_or, Bool.beq_eq_decide_eq,
      Std.compare_eq_iff_eq, eq_comm (a := node)]
  have hunlisted : visited.contains node = false :=
    Bool.eq_false_iff.2 fun hnode => h (ExtTreeSet.contains_iff_mem.1 hnode)
  have hthis : ∀ e : CellId × CellId, (decide (e.1 = node) && !visited.contains e.1) =
      decide (e.1 = node) := by
    intro e
    by_cases he : e.1 = node
    · simp [he, hunlisted]
    · simp [he]
  have hsplit := List.length_eq_length_filter_add
    (l := next.toList.filter fun e => !visited.contains e.1) fun e => decide (e.1 = node)
  simp only [List.filter_filter, hthis] at hsplit
  simp only [hother, hsplit]
  exact Nat.add_le_add_right (next.size_row_le node) _

theorem work_visit_lt (hfrontier : w.frontier = node :: rest) :
    (w.visit next node rest).work next < w.work next := by
  by_cases hnode : node ∈ w.visited
  · simp only [visit_of_mem hnode, work, hfrontier, List.length_cons]
    omega
  · have hedges := length_unlisted next hnode
    have hnew := List.length_filter_le (fun n => !(w.visited.insert node).contains n)
      (next.row node).toList
    rw [ExtTreeSet.length_toList] at hnew
    simp only [visit_of_not_mem hnode, work, hfrontier, List.length_append, List.length_cons]
    omega

theorem frontier_run {rounds : Nat} (h : w.work next ≤ rounds) :
    (run next rounds w).frontier = [] := by
  induction rounds generalizing w with
  | zero =>
    unfold work at h
    unfold run
    exact List.eq_nil_of_length_eq_zero (by omega)
  | succ rounds ih =>
    unfold run
    split
    · assumption
    · rename_i hfrontier
      refine ih (Nat.le_of_lt_succ (Nat.lt_of_lt_of_le ?_ h))
      exact work_visit_lt hfrontier

/-- **The walk ends by itself**: when it stops no node waits. -/
theorem frontier_whole (next : Rows CellId CellId) (node : CellId) :
    (whole next node).frontier = [] := by
  refine frontier_run ?_
  have hstart := List.length_filter_le
    (fun e : CellId × CellId => !(Walk.start next node).visited.contains e.1) next.toList
  rw [work, Walk.start, ExtTreeSet.length_toList, Rows.size]
  exact Nat.add_le_add_left hstart _

/-! ## 3. Stamps -/

/-- Of the given nodes the one in place `i` is the first that leads to `n`. -/
def Earliest (next : Rows CellId CellId) (nodes : List CellId) (n : CellId) (i : Nat) : Prop :=
  (∃ p, nodes[i]? = some p ∧ n ∈ next.row p) ∧ ∀ j p, nodes[j]? = some p → n ∈ next.row p → i ≤ j

/-- More nodes behind the given ones do not matter. -/
theorem Earliest.concat {nodes : List CellId} {n last : CellId} {i : Nat}
    (h : Earliest next nodes n i) : Earliest next (nodes ++ [last]) n i := by
  obtain ⟨⟨p, hp, hn⟩, hleast⟩ := h
  refine ⟨⟨p, getElem?_concat_eq_some.2 (.inl hp), hn⟩, ?_⟩
  intro j q hq hnq
  rcases getElem?_concat_eq_some.1 hq with hbefore | ⟨rfl, -⟩
  · exact hleast j q hbefore hnq
  · exact Nat.le_of_lt (List.getElem?_eq_some_iff.1 hp).1

/-- Ascending by stamp, and by node where the stamps are the same. -/
def Sooner (a b : Nat × CellId) : Prop :=
  a.1 < b.1 ∨ a.1 = b.1 ∧ compare a.2 b.2 = .lt

theorem Sooner.stamp_le {a b : Nat × CellId} (h : Sooner a b) : a.1 ≤ b.1 := by
  rcases h with h | ⟨h, -⟩
  · exact Nat.le_of_lt h
  · exact Nat.le_of_eq h

theorem Sooner.stamp_lt {i j : Nat} {n : CellId} (h : Sooner (i, n) (j, n)) : i < j := by
  rcases h with h | ⟨-, h⟩
  · exact h
  · rw [Std.compare_self] at h
    cases h

/-- The nodes that were listed and those that wait, with their stamps. -/
structure Stamped (next : Rows CellId CellId) (start : CellId) (w : Walk)
    (listed waiting : List (Nat × CellId)) : Prop where
  order : listed.map Prod.snd = w.order
  frontier : waiting.map Prod.snd = w.frontier
  visited : ∀ n, n ∈ w.visited ↔ n ∈ w.order
  sorted : (listed ++ waiting).Pairwise Sooner
  earliest : ∀ e ∈ listed, Earliest next (start :: w.order) e.2 e.1
  /-- A stamp is the place of a parent. -/
  source : ∀ e ∈ waiting, ∃ p, (start :: w.order)[e.1]? = some p ∧ e.2 ∈ next.row p
  /-- No neighbour is missing. -/
  covered : ∀ i p n, (start :: w.order)[i]? = some p → n ∈ next.row p →
    ∃ s ≤ i, (s, n) ∈ listed ++ waiting
  reached : ∀ e ∈ listed ++ waiting, Relation.TransGen (fun a b => b ∈ next.row a) start e.2

namespace Stamped

variable {listed waiting : List (Nat × CellId)} {stamp : Nat}

/-- In the beginning the neighbours of the start wait, and the start is in the first place. -/
theorem initial (next : Rows CellId CellId) (node : CellId) :
    Stamped next node (Walk.start next node) [] ((next.row node).toList.map fun n => (0, n)) where
  order := rfl
  frontier := by
    rw [List.map_map]
    exact List.map_id _
  visited n := by simp [Walk.start]
  sorted := by
    rw [List.nil_append, List.pairwise_map]
    exact ExtTreeSet.ordered_toList.imp fun h => .inr ⟨rfl, h⟩
  earliest e he := by cases he
  source e he := by
    obtain ⟨n, hn, rfl⟩ := List.mem_map.1 he
    exact ⟨node, rfl, ExtTreeSet.mem_toList.1 hn⟩
  covered i p n hp hn := by
    obtain ⟨rfl, rfl⟩ : i = 0 ∧ node = p := by simpa [Walk.start, List.getElem?_cons] using hp
    exact ⟨0, Nat.le_refl _, List.mem_map.2 ⟨n, ExtTreeSet.mem_toList.2 hn, rfl⟩⟩
  reached e he := by
    obtain ⟨n, hn, rfl⟩ := List.mem_map.1 he
    exact .single (ExtTreeSet.mem_toList.1 hn)

theorem mem_order_iff (h : Stamped next start w listed waiting) {n : CellId} :
    n ∈ w.order ↔ ∃ s, (s, n) ∈ listed := by
  simp [← h.order]

/-- A node that comes up again has the greater stamp now, and nothing is lost by passing over it. -/
theorem skip (h : Stamped next start w listed ((stamp, node) :: waiting))
    (hnode : node ∈ w.visited) :
    Stamped next start { w with frontier := waiting.map Prod.snd } listed waiting where
  order := h.order
  frontier := rfl
  visited := h.visited
  sorted := h.sorted.sublist (List.Sublist.append_left (List.sublist_cons_self _ _) _)
  earliest := h.earliest
  source e he := h.source e (List.mem_cons_of_mem _ he)
  covered i p n hp hn := by
    obtain ⟨s, hs, hmem⟩ := h.covered i p n hp hn
    rcases List.mem_append.1 hmem with hlisted | hwaiting
    · exact ⟨s, hs, List.mem_append_left _ hlisted⟩
    rcases List.mem_cons.1 hwaiting with heq | hwaiting
    · cases heq
      obtain ⟨t, ht⟩ := h.mem_order_iff.1 ((h.visited node).1 hnode)
      have hlt := ((List.pairwise_append.1 h.sorted).2.2 _ ht _ List.mem_cons_self).stamp_lt
      exact ⟨t, by omega, List.mem_append_left _ ht⟩
    · exact ⟨s, hs, List.mem_append_right _ hwaiting⟩
  reached e he := h.reached e (by
    rcases List.mem_append.1 he with he | he
    · exact List.mem_append_left _ he
    · exact List.mem_append_right _ (List.mem_cons_of_mem _ he))

/-- The stamp of a node that comes up for the first time is the place of its earliest parent: an
earlier parent would have put it into the queue before. -/
theorem earliest_head (h : Stamped next start w listed ((stamp, node) :: waiting))
    (hnode : node ∉ w.visited) : Earliest next (start :: w.order) node stamp := by
  refine ⟨h.source _ List.mem_cons_self, ?_⟩
  intro j p hp hn
  obtain ⟨s, hs, hmem⟩ := h.covered j p node hp hn
  rcases List.mem_append.1 hmem with hlisted | hwaiting
  · exact absurd ((h.visited node).2 (h.mem_order_iff.2 ⟨s, hlisted⟩)) hnode
  rcases List.mem_cons.1 hwaiting with heq | hwaiting
  · cases heq
    exact hs
  · have hsorted := (List.pairwise_append.1 h.sorted).2.1
    have hlt := ((List.pairwise_cons.1 hsorted).1 _ hwaiting).stamp_lt
    omega

/-- Every stamp is the place of a node that was listed by now. -/
theorem stamp_lt (h : Stamped next start w listed waiting) {e : Nat × CellId}
    (he : e ∈ listed ++ waiting) : e.1 < w.order.length + 1 := by
  obtain ⟨p, hp⟩ : ∃ p, (start :: w.order)[e.1]? = some p := by
    rcases List.mem_append.1 he with he | he
    · obtain ⟨⟨p, hp, -⟩, -⟩ := h.earliest e he
      exact ⟨p, hp⟩
    · obtain ⟨p, hp, -⟩ := h.source e he
      exact ⟨p, hp⟩
  exact (List.getElem?_eq_some_iff.1 hp).1

/-- A node that comes up for the first time gets the place behind those that were listed, and its
neighbours are stamped with that place. -/
theorem list (h : Stamped next start w listed ((stamp, node) :: waiting))
    (hnode : node ∉ w.visited) :
    Stamped next start (w.visit next node (waiting.map Prod.snd)) (listed ++ [(stamp, node)])
      (waiting ++ ((next.row node).toList.filter fun n => !(w.visited.insert node).contains n).map
        fun n => (w.order.length + 1, n)) := by
  rw [visit_of_not_mem hnode]
  generalize hfresh : ((next.row node).toList.filter fun n => !(w.visited.insert node).contains n) =
    fresh
  have hmem : ∀ n, n ∈ fresh ↔ n ∈ next.row node ∧ n ∉ w.visited.insert node := by
    intro n
    rw [← hfresh, List.mem_filter, ExtTreeSet.mem_toList, Bool.not_eq_true', ← Bool.not_eq_true,
      ExtTreeSet.contains_iff_mem]
  have hall : (listed ++ [(stamp, node)]) ++
      (waiting ++ fresh.map fun n => (w.order.length + 1, n)) =
      (listed ++ (stamp, node) :: waiting) ++ fresh.map fun n => (w.order.length + 1, n) := by simp
  have hold : ∀ {e}, e ∈ listed ++ (stamp, node) :: waiting →
      e ∈ (listed ++ [(stamp, node)]) ++
        (waiting ++ fresh.map fun n => (w.order.length + 1, n)) := by
    intro e he
    rw [hall]
    exact List.mem_append_left _ he
  constructor
  case order => simp [h.order]
  case frontier => simp [Function.comp_def]
  case visited =>
    intro n
    rw [ExtTreeSet.mem_insert, Std.compare_eq_iff_eq, h.visited, List.mem_append,
      List.mem_singleton, or_comm, eq_comm]
  case sorted =>
    rw [hall]
    refine List.pairwise_append.2 ⟨h.sorted, ?_, ?_⟩
    · rw [List.pairwise_map, ← hfresh]
      exact (ExtTreeSet.ordered_toList.filter _).imp fun hless => .inr ⟨rfl, hless⟩
    · intro e he f hf
      obtain ⟨n, -, rfl⟩ := List.mem_map.1 hf
      exact .inl (h.stamp_lt he)
  case earliest =>
    intro e he
    rcases List.mem_append.1 he with he | he
    · exact (h.earliest e he).concat
    · rw [List.mem_singleton.1 he]
      exact (h.earliest_head hnode).concat
  case source =>
    intro e he
    rcases List.mem_append.1 he with he | he
    · obtain ⟨p, hp, hn⟩ := h.source e (List.mem_cons_of_mem _ he)
      exact ⟨p, getElem?_concat_eq_some.2 (.inl hp), hn⟩
    · obtain ⟨n, hn, rfl⟩ := List.mem_map.1 he
      exact ⟨node, getElem?_concat_eq_some.2 (.inr ⟨rfl, rfl⟩), ((hmem n).1 hn).1⟩
  case covered =>
    intro i p n hp hn
    have hplace : ((start :: w.order) ++ [node])[i]? = some p := hp
    rcases getElem?_concat_eq_some.1 hplace with hp | ⟨rfl, rfl⟩
    · obtain ⟨s, hs, hwhere⟩ := h.covered i p n hp hn
      exact ⟨s, hs, hold hwhere⟩
    by_cases hseen : n ∈ w.visited.insert node
    · -- The neighbour is listed by now, so its stamp is the place of a node before this one.
      obtain ⟨s, hs⟩ : ∃ s, (s, n) ∈ listed ++ (stamp, node) :: waiting := by
        rw [ExtTreeSet.mem_insert, Std.compare_eq_iff_eq, h.visited, h.mem_order_iff] at hseen
        rcases hseen with rfl | ⟨s, hs⟩
        · exact ⟨stamp, List.mem_append_right _ List.mem_cons_self⟩
        · exact ⟨s, List.mem_append_left _ hs⟩
      exact ⟨s, Nat.le_of_lt (h.stamp_lt hs), hold hs⟩
    · have hnew : n ∈ fresh := (hmem n).2 ⟨hn, hseen⟩
      refine ⟨w.order.length + 1, Nat.le_refl _, ?_⟩
      rw [hall]
      exact List.mem_append_right _ (List.mem_map.2 ⟨n, hnew, rfl⟩)
  case reached =>
    intro e he
    rw [hall] at he
    rcases List.mem_append.1 he with he | he
    · exact h.reached e he
    · obtain ⟨n, hn, rfl⟩ := List.mem_map.1 he
      have hparent := h.reached (stamp, node) (List.mem_append_right _ List.mem_cons_self)
      exact hparent.tail ((hmem n).1 hn).1

/-- **Each round keeps the stamps in order.** -/
theorem visit (h : Stamped next start w listed waiting) (hfrontier : w.frontier = node :: rest) :
    ∃ listed waiting, Stamped next start (w.visit next node rest) listed waiting := by
  have hwaiting := h.frontier.trans hfrontier
  obtain ⟨⟨stamp, n⟩, others, rfl, hhead, hothers⟩ := List.map_eq_cons_iff.1 hwaiting
  obtain rfl : n = node := hhead
  subst hothers
  by_cases hnode : n ∈ w.visited
  · rw [visit_of_mem hnode]
    exact ⟨_, _, h.skip hnode⟩
  · exact ⟨_, _, h.list hnode⟩

theorem run (h : Stamped next start w listed waiting) (rounds : Nat) :
    ∃ listed waiting, Stamped next start (run next rounds w) listed waiting := by
  induction rounds generalizing w listed waiting with
  | zero => exact ⟨listed, waiting, h⟩
  | succ rounds ih =>
    unfold Walk.run
    split
    · exact ⟨listed, waiting, h⟩
    · rename_i hfrontier
      obtain ⟨listed', waiting', h'⟩ := h.visit hfrontier
      exact ih h'

end Stamped

/-- **In the end all that was reached is listed**, in the order of the stamps. -/
theorem exists_stamped_whole (next : Rows CellId CellId) (node : CellId) :
    ∃ listed, Stamped next node (whole next node) listed [] := by
  obtain ⟨listed, waiting, hstamped⟩ :=
    (Stamped.initial next node).run ((next.row node).size + next.size)
  have hnone : waiting.map Prod.snd = [] := hstamped.frontier.trans (frontier_whole next node)
  rw [List.map_eq_nil_iff] at hnone
  subst hnone
  exact ⟨listed, hstamped⟩

/-- **The walk is exact**, whichever way it goes. -/
theorem mem_order_whole {next : Rows CellId CellId} {a n : CellId} :
    n ∈ (whole next a).order ↔ Relation.TransGen (fun a b => b ∈ next.row a) a n := by
  obtain ⟨listed, h⟩ := exists_stamped_whole next a
  have hclosed : ∀ p m, p ∈ a :: (whole next a).order → m ∈ next.row p →
      m ∈ (whole next a).order := by
    intro p m hp hm
    obtain ⟨i, hi⟩ := List.mem_iff_getElem?.1 hp
    obtain ⟨s, -, hs⟩ := h.covered i p m hi hm
    rw [List.append_nil] at hs
    exact h.mem_order_iff.2 ⟨s, hs⟩
  constructor
  · intro hn
    obtain ⟨s, hs⟩ := h.mem_order_iff.1 hn
    exact h.reached (s, n) (List.mem_append_left _ hs)
  · intro hn
    induction hn with
    | single hm => exact hclosed a _ List.mem_cons_self hm
    | tail _ hm ih => exact hclosed _ _ (List.mem_cons_of_mem _ ih) hm

/-- The walk lists nothing twice. The stamps of the same node in two places would be the same. -/
theorem nodup_order_whole (next : Rows CellId CellId) (a : CellId) :
    (whole next a).order.Nodup := by
  obtain ⟨listed, h⟩ := exists_stamped_whole next a
  rw [← h.order]
  have hsorted := h.sorted
  rw [List.append_nil] at hsorted
  refine List.pairwise_map.2 (hsorted.imp_of_mem ?_)
  rintro ⟨i, m⟩ ⟨j, n⟩ hm hn hsooner rfl
  obtain ⟨⟨p, hp, hm'⟩, -⟩ := h.earliest _ hm
  have hle := (h.earliest _ hn).2 i p hp hm'
  have hlt := hsooner.stamp_lt
  omega

end Walk

/-! ## 4. Descendants and ancestors -/

namespace Graph

theorem mem_edges {g : Graph} {p c : CellId} : (p, c) ∈ g.edges ↔ (p, c) ∈ g :=
  Rows.mem_toList

/-- The output of `a` goes into `b`, directly or through other cells. -/
abbrev Feeds (g : Graph) : CellId → CellId → Prop :=
  Relation.TransGen fun p c => (p, c) ∈ g

theorem Feeds.mono {g h : Graph} (hgh : ∀ p c, (p, c) ∈ g → (p, c) ∈ h) {a b : CellId}
    (hab : g.Feeds a b) : h.Feeds a b :=
  Relation.TransGen.mono hgh a b hab

/-- The descendants, nearest first, are the cells that are fed. -/
theorem mem_descendantOrder_iff {g : Graph} {a n : CellId} :
    n ∈ g.descendantOrder a ↔ g.Feeds a n :=
  Walk.mem_order_whole

theorem nodup_descendantOrder (g : Graph) (a : CellId) : (g.descendantOrder a).Nodup :=
  Walk.nodup_order_whole _ a

/-- **The walk is exact**: the descendants of a cell are the cells that it feeds. -/
theorem mem_descendants_iff {g : Graph} {a n : CellId} : n ∈ g.descendants a ↔ g.Feeds a n := by
  rw [mem_descendants, mem_descendantOrder_iff]

/-- The ancestors of a cell are the cells that feed it. -/
theorem mem_ancestors_iff {g : Graph} {a n : CellId} : n ∈ g.ancestors a ↔ g.Feeds n a := by
  have hback : (fun c p => p ∈ g.edgeSet.lefts.row c) = Function.swap fun p c => (p, c) ∈ g := by
    funext c p
    exact propext mem_parents
  rw [mem_ancestors, ancestorOrder, walkUp, Walk.mem_order_whole, hback, Relation.transGen_swap]

end Graph

end Notebook
