import Mathlib.Data.List.Nodup
import Mathlib.Order.WellFoundedSet
import Notebook.Graph.Cycle
import Notebook.Proofs.Graph.Walk

/-!
# The test for cycles is exact

The test retires nodes one after the other. What it has done so far is told by the list of the
nodes that were retired: a node is retired or waits to be if it has no parents besides them, and
the count of a node is the number of its other parents. So the count of a node that is released
was never zero before, and reaches zero once.

> **the test ends by itself**: no node waits any more when it stops, and
> **the test is exact**: `g.hasCycle = true ↔ ∃ n, g.Feeds n n`.

A node that feeds itself has a parent that does. So it is not released before that one is retired,
and none of them ever is. If no node feeds itself, feeding is a strict order on the finitely many
nodes, and going up along it each node is found to be retired.
-/

set_option autoImplicit false

namespace Notebook

open Std

/-! ## 1. Rows and keys -/

namespace Rows

variable {α β : Type} [Ord α] [TransOrd α] [LawfulEqOrd α] [Ord β] [TransOrd β] [LawfulEqOrd β]

theorem mem_keys_iff {r : Rows α β} {a : α} : a ∈ r.keys ↔ ∃ b, b ∈ r.row a := by
  rw [mem_keys, ExtTreeMap.mem_iff_isSome_getElem?]
  constructor
  · intro h
    obtain ⟨row, hrow⟩ := Option.isSome_iff_exists.1 h
    exact exists_mem_row hrow
  · intro h
    obtain ⟨b, hb⟩ := h
    rw [getElem?_table hb]
    rfl

end Rows

/-! ## 2. Releasing the children of a node -/

namespace Sweep

variable {s : Sweep} {n : CellId}

/-- The node waits for one parent at most. -/
def last (s : Sweep) (n : CellId) : Bool :=
  (s.degrees[n]?).any fun degree => degree - 1 = 0

theorem getElem?_release (s : Sweep) (c n : CellId) :
    (s.release c).degrees[n]? = if n = c then (s.degrees[n]?).map (· - 1) else s.degrees[n]? := by
  unfold release
  cases hdegree : s.degrees[c]? with
  | none =>
    by_cases h : n = c
    · subst h
      simp [hdegree]
    · simp [h]
  | some degree =>
    have hinsert : (s.degrees.insert c (degree - 1))[n]? =
        if n = c then (s.degrees[n]?).map (· - 1) else s.degrees[n]? := by
      rw [ExtTreeMap.getElem?_insert]
      by_cases h : n = c
      · subst h
        simp [hdegree]
      · simp [h, Ne.symm h]
    dsimp only
    split <;> exact hinsert

theorem size_release (s : Sweep) (c : CellId) : (s.release c).degrees.size = s.degrees.size := by
  unfold release
  cases hdegree : s.degrees[c]? with
  | none => rfl
  | some degree =>
    have hinsert : (s.degrees.insert c (degree - 1)).size = s.degrees.size := by
      rw [ExtTreeMap.size_insert, ExtTreeMap.contains_eq_isSome_getElem?, hdegree]
      rfl
    dsimp only
    split <;> exact hinsert

theorem frontier_release (s : Sweep) (c : CellId) :
    (s.release c).frontier = s.frontier ++ [c].filter s.last := by
  unfold release
  cases hdegree : s.degrees[c]? with
  | none => simp [last, hdegree]
  | some degree =>
    dsimp only
    split
    · rename_i h
      simp [last, hdegree, h]
    · rename_i h
      simp [last, hdegree, h]

/-- What is put into the queue is counted. -/
theorem retired_release (s : Sweep) (c : CellId) :
    (s.release c).retired + s.frontier.length = s.retired + (s.release c).frontier.length := by
  unfold release
  cases s.degrees[c]? with
  | none => rfl
  | some degree =>
    dsimp only
    split
    · simp only [List.length_append, List.length_singleton]
      omega
    · rfl

/-- Releasing one node does not concern the others. -/
theorem last_release {c : CellId} (h : n ≠ c) : (s.release c).last n = s.last n := by
  rw [last, last, getElem?_release, if_neg h]

variable {cells : List CellId}

theorem getElem?_foldl_release (hcells : cells.Nodup) (s : Sweep) (n : CellId) :
    (cells.foldl release s).degrees[n]? =
      if n ∈ cells then (s.degrees[n]?).map (· - 1) else s.degrees[n]? := by
  induction cells generalizing s with
  | nil => simp
  | cons c cells ih =>
    obtain ⟨hc, hcells⟩ := List.nodup_cons.1 hcells
    rw [List.foldl_cons, ih hcells, getElem?_release]
    by_cases h : n = c
    · subst h
      simp [hc]
    · simp [h]

theorem frontier_foldl_release (hcells : cells.Nodup) (s : Sweep) :
    (cells.foldl release s).frontier = s.frontier ++ cells.filter s.last := by
  induction cells generalizing s with
  | nil => simp
  | cons c cells ih =>
    obtain ⟨hc, hcells⟩ := List.nodup_cons.1 hcells
    have hsame : cells.filter (s.release c).last = cells.filter s.last :=
      List.filter_congr fun n hn => last_release fun h => hc (h ▸ hn)
    rw [List.foldl_cons, ih hcells, frontier_release, hsame, List.append_assoc,
      ← List.filter_append]
    rfl

theorem size_foldl_release (cells : List CellId) (s : Sweep) :
    (cells.foldl release s).degrees.size = s.degrees.size := by
  induction cells generalizing s with
  | nil => rfl
  | cons c cells ih => rw [List.foldl_cons, ih, size_release]

theorem retired_foldl_release (cells : List CellId) (s : Sweep) :
    (cells.foldl release s).retired + s.frontier.length =
      s.retired + (cells.foldl release s).frontier.length := by
  induction cells generalizing s with
  | nil => rfl
  | cons c cells ih =>
    have hfirst := s.retired_release c
    have hrest := ih (s.release c)
    rw [List.foldl_cons]
    omega

/-! ## 3. What was retired -/

/-- The parents of a node that are not retired. -/
def pending (done : List CellId) (parents : ExtTreeSet CellId) : List CellId :=
  parents.toList.filter fun p => p ∉ done

theorem mem_pending {done : List CellId} {parents : ExtTreeSet CellId} {p : CellId} :
    p ∈ pending done parents ↔ p ∈ parents ∧ p ∉ done := by
  simp [pending]

theorem nodup_pending (done : List CellId) (parents : ExtTreeSet CellId) :
    (pending done parents).Nodup :=
  (nodup_setToList parents).filter _

/-- One parent more is retired. -/
theorem pending_concat (done : List CellId) (node : CellId) (parents : ExtTreeSet CellId) :
    pending (done ++ [node]) parents = (pending done parents).erase node := by
  rw [(nodup_pending done parents).erase_eq_filter, pending, pending, List.filter_filter]
  refine List.filter_congr fun p _ => ?_
  simp [not_or, and_comm, Bool.decide_and, bne, Bool.beq_eq_decide_eq]

/-- The test as far as the nodes of `done` are retired, in this order. -/
structure Swept (g : Graph) (done : List CellId) (s : Sweep) : Prop where
  nodup : (done ++ s.frontier).Nodup
  /-- Retired or next is every node whose parents are all retired. -/
  mem : ∀ n, n ∈ done ++ s.frontier ↔
    ((∃ c, (n, c) ∈ g) ∨ ∃ p, (p, n) ∈ g) ∧ ∀ p, (p, n) ∈ g → p ∈ done
  degree : ∀ n : CellId, s.degrees[n]? = (g.edgeSet.lefts.table[n]?).map fun parents =>
    (pending done parents).length
  size : s.degrees.size = g.edgeSet.lefts.keys.length
  counted : s.retired + g.sweepStart.frontier.length = (done ++ s.frontier).length
  calm : ∀ n ∈ done ++ s.frontier, ¬ g.Feeds n n

namespace Swept

variable {g : Graph} {done rest : List CellId} {node : CellId}

theorem mem_frontier_start {n : CellId} :
    n ∈ g.sweepStart.frontier ↔ (∃ c, (n, c) ∈ g) ∧ ∀ p, (p, n) ∉ g := by
  have hparents : g.inDegrees.contains n = false ↔ ∀ p, (p, n) ∉ g := by
    rw [← Bool.not_eq_true, ExtTreeMap.contains_iff_mem, Graph.inDegrees, ExtTreeMap.mem_map,
      ← Rows.mem_keys, Rows.mem_keys_iff, not_exists]
    exact forall_congr' fun p => not_congr Graph.mem_parents
  show n ∈ g.edgeSet.rights.keys.filter (fun node => !g.inDegrees.contains node) ↔ _
  rw [List.mem_filter, Bool.not_eq_true', hparents, Rows.mem_keys_iff]
  exact Iff.rfl

/-- Nothing is retired in the beginning. -/
theorem start (g : Graph) : Swept g [] g.sweepStart where
  nodup := ExtTreeMap.nodup_keys.filter _
  mem n := by
    rw [List.nil_append, mem_frontier_start]
    constructor
    · intro h
      obtain ⟨hchild, hnone⟩ := h
      exact ⟨.inl hchild, fun p hp => absurd hp (hnone p)⟩
    · intro h
      obtain ⟨hnode, hnone⟩ := h
      have hparents : ∀ p, (p, n) ∉ g := fun p hp => List.not_mem_nil (hnone p hp)
      rcases hnode with hchild | ⟨p, hp⟩
      · exact ⟨hchild, hparents⟩
      · exact absurd hp (hparents p)
  degree n := by
    have hnone : ∀ parents : ExtTreeSet CellId, pending [] parents = parents.toList := by
      intro parents
      simp [pending]
    show g.inDegrees[n]? = _
    simp only [Graph.inDegrees, ExtTreeMap.getElem?_map, hnone, ExtTreeSet.length_toList]
  size := by
    rw [Rows.keys, ExtTreeMap.length_keys]
    exact ExtTreeMap.size_map
  counted := by
    rw [List.nil_append]
    exact Nat.zero_add _
  calm n hn hself := by
    obtain ⟨p, -, hp⟩ := Relation.TransGen.tail'_iff.1 hself
    exact (mem_frontier_start.1 hn).2 p hp

theorem degree_of_mem (h : Swept g done s) {p c : CellId} (hedge : (p, c) ∈ g) :
    s.degrees[c]? = some (pending done (g.parents c)).length := by
  have hrow : g.edgeSet.lefts.table[c]? = some (g.parents c) :=
    Rows.getElem?_table (Graph.mem_parents.2 hedge)
  rw [h.degree, hrow, Option.map_some]

/-- A child of the node that is retired now is next if and only if all its parents are retired
with it. -/
theorem last_iff (h : Swept g done s) (hnode : node ∉ done) {c : CellId} (hedge : (node, c) ∈ g) :
    s.last c = true ↔ ∀ p, (p, c) ∈ g → p ∈ done ++ [node] := by
  have hmem : node ∈ pending done (g.parents c) := mem_pending.2 ⟨Graph.mem_parents.2 hedge, hnode⟩
  have hlength : (pending (done ++ [node]) (g.parents c)).length =
      (pending done (g.parents c)).length - 1 := by
    rw [pending_concat, List.length_erase_of_mem hmem]
  rw [last, h.degree_of_mem hedge, Option.any_some, decide_eq_true_eq, ← hlength,
    List.length_eq_zero_iff, List.eq_nil_iff_forall_not_mem]
  simp only [mem_pending, Graph.mem_parents, not_and, not_not]

/-- The node that is retired now was not retired before. -/
theorem not_mem_done (h : Swept g done s) (hfrontier : s.frontier = node :: rest) :
    node ∉ done := by
  have hnodup := h.nodup
  rw [hfrontier] at hnodup
  intro hdone
  exact (List.nodup_append.1 hnodup).2.2 node hdone node List.mem_cons_self rfl

theorem mem_released (h : Swept g done s) (hnode : node ∉ done) {c : CellId} :
    c ∈ (g.children node).toList.filter s.last ↔
      (node, c) ∈ g ∧ ∀ p, (p, c) ∈ g → p ∈ done ++ [node] := by
  rw [List.mem_filter, ExtTreeSet.mem_toList, Graph.mem_children]
  exact and_congr_right fun hedge => h.last_iff hnode hedge

/-- The nodes that were retired or next, and those that are released, are the ones without other
parents. -/
theorem parents_iff (h : Swept g done s) (node n : CellId) :
    (n ∈ done ++ s.frontier ∨ (node, n) ∈ g ∧ ∀ p, (p, n) ∈ g → p ∈ done ++ [node]) ↔
      ((∃ c, (n, c) ∈ g) ∨ ∃ p, (p, n) ∈ g) ∧ ∀ p, (p, n) ∈ g → p ∈ done ++ [node] := by
  rw [h.mem]
  constructor
  · intro hn
    rcases hn with ⟨hnode, hparents⟩ | ⟨hedge, hparents⟩
    · exact ⟨hnode, fun p hp => List.mem_append_left _ (hparents p hp)⟩
    · exact ⟨.inr ⟨node, hedge⟩, hparents⟩
  · intro hn
    obtain ⟨hn, hparents⟩ := hn
    by_cases hedge : (node, n) ∈ g
    · exact .inr ⟨hedge, hparents⟩
    · refine .inl ⟨hn, fun p hp => ?_⟩
      rcases List.mem_append.1 (hparents p hp) with hdone | hlast
      · exact hdone
      · rw [List.mem_singleton.1 hlast] at hp
        exact absurd hp hedge

/-- The counts go down by one for the children of the node, and it was one of their parents. -/
theorem degree_released (h : Swept g done s) (hnode : node ∉ done) (n : CellId) :
    (if n ∈ (g.children node).toList then (s.degrees[n]?).map (· - 1) else s.degrees[n]?) =
      (g.edgeSet.lefts.table[n]?).map fun parents => (pending (done ++ [node]) parents).length := by
  rw [h.degree]
  cases hrow : g.edgeSet.lefts.table[n]? with
  | none => simp
  | some parents =>
    have hparents : g.parents n = parents := Rows.row_of_table hrow
    have hedge : n ∈ (g.children node).toList ↔ node ∈ pending done parents := by
      rw [ExtTreeSet.mem_toList, Graph.mem_children, mem_pending, ← hparents, Graph.mem_parents]
      exact (and_iff_left hnode).symm
    simp only [Option.map_some, pending_concat, List.length_erase]
    by_cases hchild : node ∈ pending done parents
    · simp [hedge, hchild]
    · simp [hedge, hchild]

/-- A node that feeds itself has a parent that feeds itself, and no such node is retired or next. -/
theorem calm_of_parents (h : Swept g done s) {n : CellId}
    (hparents : ∀ p, (p, n) ∈ g → p ∈ done ++ s.frontier) : ¬ g.Feeds n n := by
  intro hself
  obtain ⟨p, hback, hp⟩ := Relation.TransGen.tail'_iff.1 hself
  exact h.calm p (hparents p hp) (Relation.TransGen.head' hp hback)

/-- **One round**: the first node of the queue is retired, and its children are released. -/
theorem retire (h : Swept g done s) (hfrontier : s.frontier = node :: rest) :
    Swept g (done ++ [node])
      ((g.children node).toList.foldl release { s with frontier := rest }) := by
  have hnode := h.not_mem_done hfrontier
  have hchildren := nodup_setToList (g.children node)
  have hnext : ((g.children node).toList.foldl release { s with frontier := rest }).frontier =
      rest ++ (g.children node).toList.filter s.last :=
    frontier_foldl_release hchildren _
  have hall : (done ++ [node]) ++ (rest ++ (g.children node).toList.filter s.last) =
      (done ++ s.frontier) ++ (g.children node).toList.filter s.last := by simp [hfrontier]
  constructor
  case nodup =>
    rw [hnext, hall]
    refine List.nodup_append.2 ⟨h.nodup, hchildren.filter _, ?_⟩
    rintro c hc _ hnew rfl
    -- All parents of a node that is retired or next are retired, and `node` was not.
    exact hnode (((h.mem c).1 hc).2 node ((h.mem_released hnode).1 hnew).1)
  case mem =>
    intro n
    rw [hnext, hall, List.mem_append, h.mem_released hnode]
    exact h.parents_iff node n
  case degree =>
    intro n
    rw [getElem?_foldl_release hchildren]
    exact h.degree_released hnode n
  case size =>
    rw [size_foldl_release]
    exact h.size
  case counted =>
    have hbefore := h.counted
    have hcounted := retired_foldl_release (g.children node).toList { s with frontier := rest }
    rw [hfrontier] at hbefore
    simp only [hnext, List.length_append, List.length_cons, List.length_nil] at hbefore hcounted ⊢
    omega
  case calm =>
    intro n hn
    rw [hnext, hall] at hn
    rcases List.mem_append.1 hn with hn | hn
    · exact h.calm n hn
    · refine h.calm_of_parents fun p hp => ?_
      rw [hfrontier]
      rcases List.mem_append.1 (((h.mem_released hnode).1 hn).2 p hp) with hdone | hlast
      · exact List.mem_append_left _ hdone
      · exact List.mem_append_right _ (List.mem_cons.2 (.inl (List.mem_singleton.1 hlast)))

/-- What is retired after some rounds. Each round retires a node if one waits. -/
theorem run (h : Swept g done s) (rounds : Nat) :
    ∃ done', Swept g done' (Sweep.run g rounds s) ∧
      ((Sweep.run g rounds s).frontier = [] ∨ done'.length = done.length + rounds) := by
  induction rounds generalizing done s with
  | zero => exact ⟨done, h, .inr rfl⟩
  | succ rounds ih =>
    unfold Sweep.run
    split
    · rename_i hempty
      exact ⟨done, h, .inl hempty⟩
    · rename_i hfrontier
      obtain ⟨done', hdone', hlength⟩ := ih (h.retire hfrontier)
      rw [List.length_append, List.length_singleton, Nat.add_assoc, Nat.add_comm 1] at hlength
      exact ⟨done', hdone', hlength⟩

theorem length_le (h : Swept g done s) :
    (done ++ s.frontier).length ≤ g.edgeSet.rights.keys.length + g.edgeSet.lefts.keys.length := by
  rw [← List.length_append]
  have hsubset : done ++ s.frontier ⊆ g.edgeSet.rights.keys ++ g.edgeSet.lefts.keys := by
    intro n hn
    rcases ((h.mem n).1 hn).1 with hchild | ⟨p, hp⟩
    · exact List.mem_append_left _ (Rows.mem_keys_iff.2 hchild)
    · exact List.mem_append_right _ (Rows.mem_keys_iff.2 ⟨p, Graph.mem_parents.2 hp⟩)
  exact (List.subperm_of_subset h.nodup hsubset).length_le

/-- When no node waits, all nodes with a parent were counted if and only if all of them are
retired. -/
theorem retired_eq_size_iff (h : Swept g done s) (hempty : s.frontier = []) :
    s.retired = s.degrees.size ↔ ∀ p n, (p, n) ∈ g → n ∈ done := by
  have hmem := h.mem
  have hnodup := h.nodup
  have hcounted := h.counted
  rw [hempty, List.append_nil] at hmem hnodup hcounted
  have hall : (g.sweepStart.frontier ++ g.edgeSet.lefts.keys).Nodup := by
    refine List.nodup_append.2 ⟨ExtTreeMap.nodup_keys.filter _, ExtTreeMap.nodup_keys, ?_⟩
    rintro n hroot _ hkey rfl
    obtain ⟨p, hp⟩ := Rows.mem_keys_iff.1 hkey
    exact (mem_frontier_start.1 hroot).2 p (Graph.mem_parents.1 hp)
  have hsubset : done ⊆ g.sweepStart.frontier ++ g.edgeSet.lefts.keys := by
    intro n hn
    by_cases hparent : ∃ p, (p, n) ∈ g
    · obtain ⟨p, hp⟩ := hparent
      exact List.mem_append_right _ (Rows.mem_keys_iff.2 ⟨p, Graph.mem_parents.2 hp⟩)
    · have hchild := ((hmem n).1 hn).1.resolve_right hparent
      exact List.mem_append_left _ (mem_frontier_start.2 ⟨hchild, not_exists.1 hparent⟩)
  have hlength : s.retired = s.degrees.size ↔
      done.length = (g.sweepStart.frontier ++ g.edgeSet.lefts.keys).length := by
    rw [h.size, List.length_append, ← hcounted]
    omega
  rw [hlength]
  constructor
  · intro hsame p n hp
    have hperm := (List.subperm_of_subset hnodup hsubset).perm_of_length_le
      (Nat.le_of_eq hsame.symm)
    exact hperm.mem_iff.2 (List.mem_append_right _
      (Rows.mem_keys_iff.2 ⟨p, Graph.mem_parents.2 hp⟩))
  · intro hretired
    refine ((List.perm_ext_iff_of_nodup hnodup hall).2 fun n =>
      ⟨fun hn => hsubset hn, fun hn => ?_⟩).length_eq
    rcases List.mem_append.1 hn with hroot | hkey
    · obtain ⟨hchild, hnone⟩ := mem_frontier_start.1 hroot
      exact (hmem n).2 ⟨.inl hchild, fun p hp => absurd hp (hnone p)⟩
    · obtain ⟨p, hp⟩ := Rows.mem_keys_iff.1 hkey
      exact hretired p n (Graph.mem_parents.1 hp)

/-- If no node feeds itself and none waits, every node with a parent is retired: the nodes are
finitely many, so each follows from those that feed it. -/
theorem mem_of_calm (h : Swept g done s) (hempty : s.frontier = []) (hcalm : ∀ n, ¬ g.Feeds n n)
    {p n : CellId} (hedge : (p, n) ∈ g) : n ∈ done := by
  have hmem := h.mem
  rw [hempty, List.append_nil] at hmem
  have horder : IsStrictOrder CellId g.Feeds :=
    { irrefl := hcalm, trans := fun _ _ _ => Relation.TransGen.trans }
  have hfounded : {n | (∃ c, (n, c) ∈ g) ∨ ∃ p, (p, n) ∈ g}.WellFoundedOn g.Feeds := by
    refine Set.Finite.wellFoundedOn
      ((List.finite_toSet (g.edgeSet.rights.keys ++ g.edgeSet.lefts.keys)).subset ?_)
    intro n hn
    rcases hn with hchild | ⟨p, hp⟩
    · exact List.mem_append_left _ (Rows.mem_keys_iff.2 hchild)
    · exact List.mem_append_right _ (Rows.mem_keys_iff.2 ⟨p, Graph.mem_parents.2 hp⟩)
  refine hfounded.induction (P := fun n => n ∈ done) (.inr ⟨p, hedge⟩) ?_
  intro n hn ih
  exact (hmem n).2 ⟨hn, fun p hp => ih p (.inl ⟨n, hp⟩) (.single hp)⟩

end Swept

end Sweep

/-! ## 4. The test -/

namespace Graph

variable {g : Graph} {n : CellId}

theorem exists_swept_sweep (g : Graph) :
    ∃ done, Sweep.Swept g done g.sweep ∧ g.sweep.frontier = [] := by
  obtain ⟨done, hdone, hrounds⟩ :=
    (Sweep.Swept.start g).run (g.edgeSet.rights.keys.length + g.edgeSet.lefts.keys.length)
  refine ⟨done, hdone, ?_⟩
  rcases hrounds with hempty | hlength
  · exact hempty
  · have hle := hdone.length_le
    rw [List.length_append, hlength, List.length_nil, Nat.zero_add] at hle
    exact List.eq_nil_of_length_eq_zero (Nat.le_zero.1 (Nat.le_of_add_le_add_left hle))

/-- **The test is exact.** -/
theorem hasCycle_iff (g : Graph) : g.hasCycle = true ↔ ∃ n, g.Feeds n n := by
  obtain ⟨done, hdone, hempty⟩ := g.exists_swept_sweep
  unfold hasCycle
  rw [bne_iff_ne, ne_eq, hdone.retired_eq_size_iff hempty]
  constructor
  · intro hleft
    by_contra hcalm
    exact hleft fun p n hedge => hdone.mem_of_calm hempty (not_exists.1 hcalm) hedge
  · intro h hretired
    obtain ⟨n, hself⟩ := h
    obtain ⟨p, -, hp⟩ := Relation.TransGen.tail'_iff.1 hself
    exact hdone.calm n (List.mem_append_left _ (hretired p n hp)) hself

theorem hasCycle_of_feeds_self (h : g.Feeds n n) : g.hasCycle = true :=
  g.hasCycle_iff.2 ⟨n, h⟩

/-- No cell feeds itself in a graph that passes the test. -/
theorem not_feeds_self (h : g.hasCycle = false) (n : CellId) : ¬ g.Feeds n n := by
  intro hn
  rw [hasCycle_of_feeds_self hn] at h
  exact Bool.noConfusion h

/-- **Cycle detection.** The test stops with an empty queue, and it answers whether some node
reaches itself through one or more edges, that is whether some node is its own descendant. -/
theorem cycle_detection (g : Graph) :
    g.sweep.frontier = [] ∧
    (g.hasCycle = true ↔ ∃ n, g.Feeds n n) ∧
    (g.hasCycle = true ↔ ∃ n, n ∈ g.descendants n) := by
  obtain ⟨done, -, hempty⟩ := g.exists_swept_sweep
  refine ⟨hempty, g.hasCycle_iff, ?_⟩
  simp only [hasCycle_iff, mem_descendants_iff]

end Graph

end Notebook
