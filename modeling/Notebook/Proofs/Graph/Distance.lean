import Notebook.Proofs.Graph.Walk

/-!
# Nearest first

How far a node is away is the least number of edges, one or more, that lead to it. The order in
which the walk lists the descendants of a node is determined by the graph alone:

> **nearer nodes come first**, children of the start in ascending order, and of two nodes
> that are equally far away the one whose earliest listed parent comes first, or the smaller
> one if they share that parent.

The walk knows nothing of distances, it knows stamps. The list is sorted by them, and what the
argument needs is that a node is not nearer than one before it on the list. This goes by induction
on the chain of edges that leads to the later node: the node before it on the chain is listed, and
the stamp of the later node is at most its place. The earlier node has no greater stamp, so it has
a parent in no later place, which is no farther away.
-/

set_option autoImplicit false

namespace Notebook

open Std

/-! ## 1. Distances -/

namespace Graph

/-- A chain of `k` edges, one or more, leads from `a` to the node. -/
inductive Leads (g : Graph) (a : CellId) : Nat → CellId → Prop
  | edge {n : CellId} (h : (a, n) ∈ g) : Leads g a 1 n
  | step {k : Nat} {m n : CellId} (hm : Leads g a k m) (h : (m, n) ∈ g) : Leads g a (k + 1) n

/-- The shortest chain of edges from `a` to `n` has `k` of them. -/
def Distance (g : Graph) (a n : CellId) (k : Nat) : Prop :=
  g.Leads a k n ∧ ∀ l, g.Leads a l n → k ≤ l

/-- Of the listed nodes the one in place `i` is the first parent of `n`. -/
def EarliestParent (g : Graph) (order : List CellId) (n : CellId) (i : Nat) : Prop :=
  (∃ p, order[i]? = some p ∧ (p, n) ∈ g) ∧ ∀ j p, order[j]? = some p → (p, n) ∈ g → i ≤ j

/-- Why a walk from `a` that lists nodes in this order lists `u` before `v`. -/
inductive Precedes (g : Graph) (a : CellId) (order : List CellId) (u v : CellId) : Prop
  | nearer {k l : Nat} (hu : g.Distance a u k) (hv : g.Distance a v l) (h : k < l)
  | child (hu : g.Distance a u 1) (hv : g.Distance a v 1) (h : compare u v = .lt)
  | parent {k i j : Nat} (hk : 1 < k) (hu : g.Distance a u k) (hv : g.Distance a v k)
      (hi : g.EarliestParent order u i) (hj : g.EarliestParent order v j) (h : i < j)
  | sibling {k i : Nat} (hk : 1 < k) (hu : g.Distance a u k) (hv : g.Distance a v k)
      (hi : g.EarliestParent order u i) (hj : g.EarliestParent order v i) (h : compare u v = .lt)

variable {g : Graph} {a n : CellId} {k : Nat}

theorem Leads.feeds (h : g.Leads a k n) : g.Feeds a n := by
  induction h with
  | edge h => exact .single h
  | step _ h ih => exact ih.tail h

theorem Leads.pos (h : g.Leads a k n) : 1 ≤ k := by
  cases h with
  | edge => exact Nat.le_refl 1
  | step => exact Nat.succ_le_succ (Nat.zero_le _)

/-- A cell feeds what a chain of edges leads to. -/
theorem feeds_iff_leads : g.Feeds a n ↔ ∃ k, g.Leads a k n := by
  constructor
  · intro h
    induction h with
    | single h => exact ⟨1, .edge h⟩
    | tail _ h ih =>
      obtain ⟨k, hk⟩ := ih
      exact ⟨k + 1, .step hk h⟩
  · intro h
    obtain ⟨k, hk⟩ := h
    exact hk.feeds

/-- A chain of one edge leads to the children. -/
theorem leads_one : g.Leads a 1 n ↔ (a, n) ∈ g := by
  constructor
  · intro h
    cases h with
    | edge h => exact h
    | step hm => exact absurd hm.pos (Nat.not_succ_le_zero 0)
  · exact .edge

theorem Leads.exists_distance (h : g.Leads a k n) : ∃ d, g.Distance a n d := by
  induction k using Nat.strongRecOn with
  | ind k ih =>
    by_cases hless : ∃ l < k, g.Leads a l n
    · obtain ⟨l, hl, hleads⟩ := hless
      exact ih l hl hleads
    · exact ⟨k, h, fun l hl => Nat.le_of_not_lt fun hlt => hless ⟨l, hlt, hl⟩⟩

end Graph

/-! ## 2. The list is sorted by distance -/

namespace Walk.Stamped

variable {g : Graph} {a : CellId} {w : Walk} {listed : List (Nat × CellId)}

/-- A listed node is in the same place with its stamp. -/
theorem exists_stamp (h : Stamped g.edgeSet.rights a w listed []) {i : Nat} {n : CellId}
    (hn : w.order[i]? = some n) : ∃ s, listed[i]? = some (s, n) := by
  rw [← h.order, List.getElem?_map] at hn
  obtain ⟨⟨s, m⟩, hs, rfl⟩ := Option.map_eq_some_iff.1 hn
  exact ⟨s, hs⟩

theorem sooner (h : Stamped g.edgeSet.rights a w listed []) {i j : Nat} {e f : Nat × CellId}
    (hij : i < j) (he : listed[i]? = some e) (hf : listed[j]? = some f) : Sooner e f := by
  obtain ⟨hi, rfl⟩ := List.getElem?_eq_some_iff.1 he
  obtain ⟨hj, rfl⟩ := List.getElem?_eq_some_iff.1 hf
  have hsorted := h.sorted
  rw [List.append_nil] at hsorted
  exact List.pairwise_iff_getElem.1 hsorted i j hi hj hij

theorem stamp_le (h : Stamped g.edgeSet.rights a w listed []) {i j : Nat} {e f : Nat × CellId}
    (hij : i ≤ j) (he : listed[i]? = some e) (hf : listed[j]? = some f) : e.1 ≤ f.1 := by
  rcases Nat.eq_or_lt_of_le hij with rfl | hlt
  · rw [he] at hf
    cases hf
    exact Nat.le_refl _
  · exact (h.sooner hlt he hf).stamp_le

/-- The stamp of a child of the start is zero, and that of any other node is one more
than the place of a parent. -/
theorem stamp_cases (h : Stamped g.edgeSet.rights a w listed []) {s : Nat} {n : CellId}
    (hn : (s, n) ∈ listed) :
    s = 0 ∧ (a, n) ∈ g ∨ ∃ i p, s = i + 1 ∧ w.order[i]? = some p ∧ (p, n) ∈ g ∧
      g.EarliestParent w.order n i := by
  obtain ⟨⟨p, hp, hedge⟩, hleast⟩ := h.earliest _ hn
  cases s with
  | zero =>
    cases hp
    exact .inl ⟨rfl, hedge⟩
  | succ i =>
    refine .inr ⟨i, p, rfl, hp, hedge, ⟨p, hp, hedge⟩, ?_⟩
    intro j q hq hnq
    exact Nat.le_of_succ_le_succ (hleast (j + 1) q hq hnq)

/-- **A listed node is not farther away than one behind it.** -/
theorem leads_of_le (h : Stamped g.edgeSet.rights a w listed [])
    (hclosed : ∀ m, g.Feeds a m → m ∈ w.order) {k : Nat} {v : CellId} (hv : g.Leads a k v)
    {i j : Nat} {u : CellId} (hij : i ≤ j) (hi : w.order[i]? = some u) (hj : w.order[j]? = some v) :
    ∃ l ≤ k, g.Leads a l u := by
  induction hv generalizing i j u with
  | edge hedge =>
    obtain ⟨s, hs⟩ := h.exists_stamp hi
    obtain ⟨t, ht⟩ := h.exists_stamp hj
    have hle := h.stamp_le hij hs ht
    have hzero := (h.earliest _ (List.mem_of_getElem? ht)).2 0 a rfl hedge
    rcases h.stamp_cases (List.mem_of_getElem? hs) with ⟨-, hu⟩ | ⟨i', p, hsucc, -⟩
    · exact ⟨1, Nat.le_refl 1, .edge hu⟩
    · omega
  | @step k m v hm hedge ih =>
    obtain ⟨s, hs⟩ := h.exists_stamp hi
    obtain ⟨t, ht⟩ := h.exists_stamp hj
    have hle := h.stamp_le hij hs ht
    -- The node before `v` on the chain is listed, and it put `v` into the queue if
    -- no other node did before.
    obtain ⟨j', hj'⟩ := List.mem_iff_getElem?.1 (hclosed m hm.feeds)
    have hplace := (h.earliest _ (List.mem_of_getElem? ht)).2 (j' + 1) m hj' hedge
    rcases h.stamp_cases (List.mem_of_getElem? hs) with ⟨-, hu⟩ | ⟨i', p, hsucc, hp, hu, -⟩
    · exact ⟨1, by omega, .edge hu⟩
    · obtain ⟨l, hl, hp⟩ := ih (by omega) hp hj'
      exact ⟨l + 1, by omega, .step hp hu⟩

/-- The children of the start have the stamp zero. -/
theorem stamp_eq_zero (h : Stamped g.edgeSet.rights a w listed []) {s : Nat} {n : CellId}
    (hn : (s, n) ∈ listed) (hedge : (a, n) ∈ g) : s = 0 :=
  Nat.le_zero.1 ((h.earliest _ hn).2 0 a rfl hedge)

/-- Of two nodes that are equally far away the stamps tell which one precedes the other. -/
theorem precedes_of_sooner (h : Stamped g.edgeSet.rights a w listed []) {s t k : Nat} {u v : CellId}
    (hu : (s, u) ∈ listed) (hv : (t, v) ∈ listed) (hsooner : Sooner (s, u) (t, v))
    (hdu : g.Distance a u k) (hdv : g.Distance a v k) : g.Precedes a w.order u v := by
  rcases h.stamp_cases hu with ⟨rfl, hedge⟩ | ⟨i, p, rfl, -, -, hi⟩
  · obtain rfl : k = 1 := Nat.le_antisymm (hdu.2 1 (.edge hedge)) hdu.1.pos
    obtain rfl : t = 0 := h.stamp_eq_zero hv (Graph.leads_one.1 hdv.1)
    rcases hsooner with hless | ⟨-, hless⟩
    · exact absurd hless (Nat.lt_irrefl 0)
    · exact .child hdu hdv hless
  · have hk : 1 < k := by
      refine Nat.lt_of_le_of_ne hdu.1.pos ?_
      rintro rfl
      exact absurd (h.stamp_eq_zero hu (Graph.leads_one.1 hdu.1)) (Nat.succ_ne_zero i)
    rcases h.stamp_cases hv with ⟨rfl, -⟩ | ⟨j, q, rfl, -, -, hj⟩
    · exact absurd hsooner.stamp_le (Nat.not_succ_le_zero i)
    · rcases hsooner with hless | ⟨hsame, hless⟩
      · exact .parent hk hdu hdv hi hj (Nat.lt_of_succ_lt_succ hless)
      · obtain rfl : i = j := Nat.succ.inj hsame
        exact .sibling hk hdu hdv hi hj hless

/-- **Of two listed nodes the first one precedes the other.** -/
theorem pairwise_precedes (h : Stamped g.edgeSet.rights a w listed [])
    (hclosed : ∀ m, g.Feeds a m → m ∈ w.order) : w.order.Pairwise (g.Precedes a w.order) := by
  rw [List.pairwise_iff_getElem]
  intro i j hi hj hlt
  have hu : w.order[i]? = some w.order[i] := List.getElem?_eq_getElem hi
  have hv : w.order[j]? = some w.order[j] := List.getElem?_eq_getElem hj
  obtain ⟨s, hs⟩ := h.exists_stamp hu
  obtain ⟨t, ht⟩ := h.exists_stamp hv
  have hdistance : ∀ {e}, e ∈ listed → ∃ d, g.Distance a e.2 d := by
    intro e he
    obtain ⟨k, hk⟩ := Graph.feeds_iff_leads.1 (h.reached e (List.mem_append_left _ he))
    exact hk.exists_distance
  obtain ⟨k, hk⟩ := hdistance (List.mem_of_getElem? hs)
  obtain ⟨l, hl⟩ := hdistance (List.mem_of_getElem? ht)
  obtain ⟨k', hk', hleads⟩ := h.leads_of_le hclosed hl.1 (Nat.le_of_lt hlt) hu hv
  rcases Nat.eq_or_lt_of_le (Nat.le_trans (hk.2 k' hleads) hk') with rfl | hless
  · exact h.precedes_of_sooner (List.mem_of_getElem? hs) (List.mem_of_getElem? ht)
      (h.sooner hlt hs ht) hk hl
  · exact .nearer hk hl hless

end Walk.Stamped

/-! ## 3. Breadth-first reachability -/

namespace Graph

/-- **Breadth-first reachability.** The walk ends with an empty queue. It lists, once each, the
nodes to which a chain of one or more edges leads, nearest first. The descendants are the same
set, and ancestors are the converse. -/
theorem breadth_first (g : Graph) (a : CellId) :
    (g.walkDown a).frontier = [] ∧
    (g.descendantOrder a).Nodup ∧
    (∀ n, n ∈ g.descendantOrder a ↔ ∃ k, g.Leads a k n) ∧
    (g.descendantOrder a).Pairwise (g.Precedes a (g.descendantOrder a)) ∧
    (∀ n, n ∈ g.descendants a ↔ n ∈ g.descendantOrder a) ∧
    ∀ b, b ∈ g.descendants a ↔ a ∈ g.ancestors b := by
  refine ⟨Walk.frontier_whole _ a, g.nodup_descendantOrder a, ?_, ?_, fun n => mem_descendants, ?_⟩
  · intro n
    rw [mem_descendantOrder_iff, feeds_iff_leads]
  · obtain ⟨listed, h⟩ := Walk.exists_stamped_whole g.edgeSet.rights a
    exact h.pairwise_precedes fun m hm => mem_descendantOrder_iff.2 hm
  · intro b
    rw [mem_descendants_iff, mem_ancestors_iff]

/-- Cell 5 is listed before cells 3 and 4, since its parent is. The start closes the circle, and
comes last. -/
example :
    ((∅ : Graph).addEdges [(⟨0⟩, ⟨2⟩), (⟨0⟩, ⟨1⟩), (⟨2⟩, ⟨3⟩), (⟨2⟩, ⟨4⟩), (⟨1⟩, ⟨5⟩), (⟨4⟩, ⟨1⟩),
    (⟨5⟩, ⟨0⟩)]).descendantOrder ⟨0⟩ = [⟨1⟩, ⟨2⟩, ⟨5⟩, ⟨3⟩, ⟨4⟩, ⟨0⟩] := by
  decide +kernel

end Graph

end Notebook
