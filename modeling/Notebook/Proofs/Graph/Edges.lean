import Mathlib.Data.Finset.Card
import Mathlib.Data.Finset.Filter
import Notebook.Proofs.Graph.Walk

/-!
# The graph is its set of edges

A graph keeps each edge twice, in the row of its parent and in the row of its child. Removing all
edges into a node takes its row away on one side and goes along that row to edit the other side,
and if the node reads itself, what is edited includes a row of the node. Nothing of this shows:

> **whatever is done to a graph**, it answers as the set of pairs does to which the same was done.

The set is the plain one, without rows or sides. Each operation does to the edges what it does to
the pairs, so the same holds of a history of operations. The edges are listed in order and once
each, and no other graph lists the same.
-/

set_option autoImplicit false

namespace Notebook

open Std

/-! ## 1. The order of edges -/

section

variable {α β : Type} [Ord α] [TransOrd α] [Ord β] [TransOrd β]

/-- Pairs are ordered by the left and then by the right component. -/
def comparePairs (a b : α × β) : Ordering :=
  (compare a.1 b.1).then (compare a.2 b.2)

instance : TransCmp (comparePairs (α := α) (β := β)) :=
  inferInstanceAs (TransCmp (compareLex (compareOn Prod.fst) (compareOn Prod.snd)))

instance [LawfulEqOrd α] [LawfulEqOrd β] : LawfulEqCmp (comparePairs (α := α) (β := β)) where
  eq_of_compare {a b} h := by
    obtain ⟨hleft, hright⟩ := Ordering.then_eq_eq.1 h
    exact Prod.ext (LawfulEqCmp.eq_of_compare hleft) (LawfulEqCmp.eq_of_compare hright)

/-- The pairs of a table are listed row by row. -/
theorem Rows.pairwise_toList (r : Rows α β) :
    r.toList.Pairwise fun a b => comparePairs a b = .lt := by
  rw [toList, List.pairwise_flatMap]
  constructor
  · intro entry _
    refine List.pairwise_map.2 (ExtTreeSet.ordered_toList.imp ?_)
    intro b b' hlt
    rw [comparePairs, compare_self]
    exact hlt
  · refine ExtTreeMap.ordered_keys_toList.imp ?_
    intro entry entry' hlt x hx y hy
    obtain ⟨b, -, rfl⟩ := List.mem_map.1 hx
    obtain ⟨b', -, rfl⟩ := List.mem_map.1 hy
    rw [comparePairs, hlt]
    rfl

end

namespace Graph

variable {g : Graph} {p c n : CellId}

theorem pairwise_edges (g : Graph) : g.edges.Pairwise fun a b => comparePairs a b = .lt :=
  g.edgeSet.rights.pairwise_toList

theorem nodup_edges (g : Graph) : g.edges.Nodup := by
  refine g.pairwise_edges.imp ?_
  intro a b hlt heq
  rw [heq] at hlt
  exact Ordering.noConfusion (ReflCmp.compare_self.symm.trans hlt)

/-! ## 2. The same operations on a set of pairs -/

/-- What changes a graph. -/
inductive Operation where
  | addEdge (parent child : CellId)
  | removeEdge (parent child : CellId)
  | removeParents (node : CellId)
  | removeChildren (node : CellId)
  | removeNode (node : CellId)
  | clear

def perform (g : Graph) : Operation → Graph
  | .addEdge parent child => (g.addEdge parent child).2
  | .removeEdge parent child => (g.removeEdge parent child).2
  | .removeParents node => (g.removeParents node).2
  | .removeChildren node => (g.removeChildren node).2
  | .removeNode node => g.removeNode node
  | .clear => ∅

/-- A new graph after a history. -/
def after (history : List Operation) : Graph :=
  history.foldl perform ∅

theorem after_concat (history : List Operation) (operation : Operation) :
    after (history ++ [operation]) = (after history).perform operation :=
  List.foldl_concat _ _ _ _

/-- What the operation does to a set of pairs. -/
def Operation.onPairs (pairs : Finset (CellId × CellId)) : Operation → Finset (CellId × CellId)
  | .addEdge parent child => insert (parent, child) pairs
  | .removeEdge parent child => pairs.erase (parent, child)
  | .removeParents node => pairs.filter fun e => e.2 ≠ node
  | .removeChildren node => pairs.filter fun e => e.1 ≠ node
  | .removeNode node => pairs.filter fun e => e.1 ≠ node ∧ e.2 ≠ node
  | .clear => ∅

/-- The pairs that are left after a history. -/
def pairsAfter (history : List Operation) : Finset (CellId × CellId) :=
  history.foldl Operation.onPairs ∅

/-- The edges of a graph as a set. -/
def pairs (g : Graph) : Finset (CellId × CellId) :=
  g.edges.toFinset

@[simp] theorem mem_pairs : (p, c) ∈ g.pairs ↔ (p, c) ∈ g := by
  rw [pairs, List.mem_toFinset, mem_edges]

theorem pairs_inj {g h : Graph} : g.pairs = h.pairs ↔ g = h := by
  constructor
  · intro hpairs
    refine ext fun p c => ?_
    rw [← mem_pairs, hpairs, mem_pairs]
  · intro heq
    rw [heq]

@[simp] theorem pairs_empty : (∅ : Graph).pairs = ∅ := by
  ext ⟨p, c⟩
  simp

/-- **An operation does to the edges what it does to the pairs.** -/
theorem pairs_perform (g : Graph) (operation : Operation) :
    (g.perform operation).pairs = operation.onPairs g.pairs := by
  ext ⟨p, c⟩
  rw [mem_pairs]
  cases operation with
  | addEdge parent child => simp [perform, Operation.onPairs, mem_addEdge]
  | removeEdge parent child => simp [perform, Operation.onPairs, mem_removeEdge, and_comm]
  | removeParents node => simp [perform, Operation.onPairs, mem_removeParents]
  | removeChildren node => simp [perform, Operation.onPairs, mem_removeChildren]
  | removeNode node => simp [perform, Operation.onPairs, mem_removeNode]
  | clear => simp [perform, Operation.onPairs]

theorem pairs_after (history : List Operation) : (after history).pairs = pairsAfter history := by
  induction history using List.reverseRecOn with
  | nil => exact pairs_empty
  | append_singleton history operation ih =>
    rw [after_concat, pairs_perform, ih, pairsAfter, pairsAfter, List.foldl_concat]

/-! ## 3. What a graph answers -/

/-- Everything that a graph answers is about these pairs: what it is asked, and what it reports
when an edge is added or removed. -/
structure Presents (g : Graph) (pairs : Finset (CellId × CellId)) : Prop where
  hasEdge : ∀ p c, g.hasEdge p c = decide ((p, c) ∈ pairs)
  children : ∀ p c, c ∈ g.children p ↔ (p, c) ∈ pairs
  parents : ∀ p c, p ∈ g.parents c ↔ (p, c) ∈ pairs
  edges : ∀ p c, (p, c) ∈ g.edges ↔ (p, c) ∈ pairs
  ascending : g.edges.Pairwise fun a b => comparePairs a b = .lt
  edgeCount : g.edgeCount = pairs.card
  isEmpty : g.isEmpty = true ↔ pairs = ∅
  added : ∀ p c, (g.addEdge p c).1 = decide ((p, c) ∉ pairs)
  removed : ∀ p c, (g.removeEdge p c).1 = decide ((p, c) ∈ pairs)
  formerParents : ∀ p c, p ∈ (g.removeParents c).1 ↔ (p, c) ∈ pairs
  formerChildren : ∀ p c, c ∈ (g.removeChildren p).1 ↔ (p, c) ∈ pairs

theorem edgeCount_eq_card (g : Graph) : g.edgeCount = g.pairs.card :=
  (List.toFinset_card_of_nodup g.nodup_edges).symm

theorem isEmpty_iff : g.isEmpty = true ↔ g.pairs = ∅ := by
  rw [Finset.eq_empty_iff_forall_notMem, Prod.forall]
  simp only [mem_pairs]
  exact Rows.isEmpty_iff

theorem presents_pairs (g : Graph) : g.Presents g.pairs where
  hasEdge p c := by rw [hasEdge]; exact decide_eq_decide.2 mem_pairs.symm
  children p c := by rw [mem_pairs, mem_children]
  parents p c := by rw [mem_pairs, mem_parents]
  edges p c := by rw [mem_pairs, mem_edges]
  ascending := g.pairwise_edges
  edgeCount := g.edgeCount_eq_card
  isEmpty := isEmpty_iff
  added p c := by simp [addEdge, hasEdge]
  removed p c := by simp [removeEdge, hasEdge]
  formerParents p c := by rw [removeParents, mem_pairs, mem_parents]
  formerChildren p c := by rw [removeChildren, mem_pairs, mem_children]

/-- **The graph is a set of edges.** After every history it answers as the set of pairs after the
same history does, and two histories make the same graph if they make the same set. -/
theorem presents_after (history : List Operation) :
    (after history).Presents (pairsAfter history) ∧
      ∀ other, after other = after history ↔ pairsAfter other = pairsAfter history := by
  refine ⟨?_, fun other => ?_⟩
  · rw [← pairs_after]
    exact presents_pairs _
  · rw [← pairs_inj, pairs_after, pairs_after]

/-- The edge of a cell that reads itself is one of its parents' edges and one of its children's. -/
example :
    after [.addEdge ⟨1⟩ ⟨1⟩, .addEdge ⟨2⟩ ⟨1⟩, .addEdge ⟨1⟩ ⟨3⟩, .removeParents ⟨1⟩] =
      after [.addEdge ⟨1⟩ ⟨3⟩] := by
  decide +kernel

end Graph

end Notebook
