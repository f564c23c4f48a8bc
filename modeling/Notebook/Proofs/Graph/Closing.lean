import Mathlib.Data.List.Infix
import Notebook.Proofs.Graph.Cycle
import Notebook.Proofs.Graph.Edges

/-!
# Which edge closes a cycle

The engine looks for cycles before it runs a cell. The run then records edges, one with each
read, and nothing looks for cycles until the next run begins. The test counts parents, and the
walk to the descendants follows children; what ties them together is how a chain of edges uses an
edge that is new. It does without it, or it comes to the parent of the new edge, takes the edge,
and goes on from its child. So

> **a new edge closes a cycle** if and only if its child is its parent or feeds its parent
> already, and **no removal closes one**: whenever a graph is cyclic, some edge was recorded that
> closed a cycle, and the graph has been cyclic ever since.

A graph that is cyclic already stays so with one more edge, whichever it is.
-/

set_option autoImplicit false

namespace Notebook.Graph

variable {g h : Graph} {p c a b : CellId}

/-! ## 1. One edge more -/

theorem feeds_addEdge_of_feeds (hab : g.Feeds a b) : (g.addEdge p c).2.Feeds a b :=
  hab.mono fun _ _ hedge => mem_addEdge.2 (.inr hedge)

/-- **A chain splits at the new edge** if it needs it: it comes to the parent before,
and goes on from the child. -/
theorem feeds_addEdge_iff :
    (g.addEdge p c).2.Feeds a b ↔ g.Feeds a b ∨ (a = p ∨ g.Feeds a p) ∧ (c = b ∨ g.Feeds c b) := by
  constructor
  · intro hab
    induction hab with
    | single hedge =>
      rcases mem_addEdge.1 hedge with ⟨rfl, rfl⟩ | hedge
      · exact .inr ⟨.inl rfl, .inl rfl⟩
      · exact .inl (.single hedge)
    | @tail m b _ hedge ih =>
      rcases mem_addEdge.1 hedge with ⟨rfl, rfl⟩ | hedge
      · -- The chain ends with the new edge, and may have used it before. What counts is how it
        -- first came to the parent.
        rcases ih with hbefore | ⟨hbefore, -⟩
        · exact .inr ⟨.inr hbefore, .inl rfl⟩
        · exact .inr ⟨hbefore, .inl rfl⟩
      · rcases ih with hbefore | ⟨hbefore, hbehind⟩
        · exact .inl (hbefore.tail hedge)
        · refine .inr ⟨hbefore, .inr ?_⟩
          rcases hbehind with rfl | hbehind
          · exact .single hedge
          · exact hbehind.tail hedge
  · rintro (hab | ⟨hbefore, hbehind⟩)
    · exact feeds_addEdge_of_feeds hab
    · have hnew : (g.addEdge p c).2.Feeds p c := .single (mem_addEdge.2 (.inl ⟨rfl, rfl⟩))
      have hfirst : (g.addEdge p c).2.Feeds a c := by
        rcases hbefore with rfl | hbefore
        · exact hnew
        · exact (feeds_addEdge_of_feeds hbefore).trans hnew
      rcases hbehind with rfl | hbehind
      · exact hfirst
      · exact hfirst.trans (feeds_addEdge_of_feeds hbehind)

/-- The child of the edge is its parent or feeds it already. -/
def Closes (g : Graph) (p c : CellId) : Prop :=
  p = c ∨ p ∈ g.descendants c

/-- A chain from a node to itself that needs the new edge leads from the child of the edge back to
its parent. -/
theorem closes_of_split (hbefore : a = p ∨ g.Feeds a p) (hbehind : c = a ∨ g.Feeds c a) :
    g.Closes p c := by
  rcases hbefore with rfl | hbefore
  · exact hbehind.imp Eq.symm mem_descendants_iff.2
  · refine .inr (mem_descendants_iff.2 ?_)
    rcases hbehind with rfl | hbehind
    · exact hbefore
    · exact hbehind.trans hbefore

theorem hasCycle_addEdge_iff :
    (g.addEdge p c).2.hasCycle = true ↔ g.hasCycle = true ∨ g.Closes p c := by
  simp only [hasCycle_iff, feeds_addEdge_iff]
  constructor
  · rintro ⟨n, hself | ⟨hbefore, hbehind⟩⟩
    · exact .inl ⟨n, hself⟩
    · exact .inr (closes_of_split hbefore hbehind)
  · rintro (⟨n, hself⟩ | rfl | hfeeds)
    · exact ⟨n, .inl hself⟩
    · exact ⟨p, .inr ⟨.inl rfl, .inl rfl⟩⟩
    · exact ⟨p, .inr ⟨.inl rfl, .inr (mem_descendants_iff.1 hfeeds)⟩⟩

/-! ## 2. Fewer edges -/

/-- A graph whose edges are all in an acyclic one is acyclic. -/
theorem hasCycle_of_subset (hsub : ∀ p c, (p, c) ∈ h → (p, c) ∈ g) (hg : g.hasCycle = false) :
    h.hasCycle = false := by
  rw [← Bool.not_eq_true, hasCycle_iff]
  rintro ⟨n, hself⟩
  exact not_feeds_self hg n (hself.mono hsub)

/-- Anything but recording an edge. -/
def Operation.Removes : Operation → Prop
  | .addEdge _ _ => False
  | _ => True

theorem mem_of_mem_perform {operation : Operation} (hremoves : operation.Removes)
    (hedge : (p, c) ∈ g.perform operation) : (p, c) ∈ g := by
  cases operation with
  | addEdge parent child => exact hremoves.elim
  | removeEdge parent child => exact (mem_removeEdge.1 hedge).1
  | removeParents node => exact (mem_removeParents.1 hedge).1
  | removeChildren node => exact (mem_removeChildren.1 hedge).1
  | removeNode node => exact (mem_removeNode.1 hedge).1
  | clear => exact absurd hedge (not_mem_empty (p, c))

theorem hasCycle_perform_of_removes (operation : Operation) (hremoves : operation.Removes)
    (hg : g.hasCycle = false) : (g.perform operation).hasCycle = false :=
  hasCycle_of_subset (fun _ _ => mem_of_mem_perform hremoves) hg

/-- **Which edge closes a cycle.** With one edge more a graph is cyclic if and only if it was
cyclic before, or the edge leads from a node to itself, or its parent is a descendant of its
child. Removing edges makes no graph cyclic. -/
theorem cycle_closing (g : Graph) :
    (∀ p c, (g.addEdge p c).2.hasCycle = true ↔ g.hasCycle = true ∨ p = c ∨ p ∈ g.descendants c) ∧
    (g.hasCycle = false →
      (∀ p c, (g.removeEdge p c).2.hasCycle = false) ∧
      ∀ n, (g.removeParents n).2.hasCycle = false ∧ (g.removeChildren n).2.hasCycle = false ∧
        (g.removeNode n).hasCycle = false) := by
  refine ⟨fun p c => hasCycle_addEdge_iff, fun hg => ⟨fun p c => ?_, fun n => ⟨?_, ?_, ?_⟩⟩⟩
  · exact hasCycle_perform_of_removes (.removeEdge p c) trivial hg
  · exact hasCycle_perform_of_removes (.removeParents n) trivial hg
  · exact hasCycle_perform_of_removes (.removeChildren n) trivial hg
  · exact hasCycle_perform_of_removes (.removeNode n) trivial hg

/-- Three cells, of which each reads the one before. -/
def readInRow : Graph := (∅ : Graph).addEdges [(⟨1⟩, ⟨2⟩), (⟨2⟩, ⟨3⟩)]

/-- The row may lose its first edge, and gets a cycle when its first cell reads its last one. -/
theorem readInRow_closing : readInRow.hasCycle = false ∧ ⟨3⟩ ∈ readInRow.descendants ⟨1⟩ ∧
    (readInRow.addEdge ⟨3⟩ ⟨1⟩).2.hasCycle = true ∧
      (readInRow.removeEdge ⟨1⟩ ⟨2⟩).2.hasCycle = false := by
  have hrow : readInRow.hasCycle = false := by decide +kernel
  have hdescendant : ⟨3⟩ ∈ readInRow.descendants ⟨1⟩ := by decide +kernel
  obtain ⟨hadd, hremove⟩ := cycle_closing readInRow
  exact ⟨hrow, hdescendant, (hadd ⟨3⟩ ⟨1⟩).2 (.inr (.inr hdescendant)), (hremove hrow).1 ⟨1⟩ ⟨2⟩⟩

/-! ## 3. Histories -/

theorem hasCycle_empty : (∅ : Graph).hasCycle = false := by
  rw [← Bool.not_eq_true, hasCycle_iff]
  rintro ⟨n, hself⟩
  obtain ⟨m, -, hedge⟩ := Relation.TransGen.tail'_iff.1 hself
  exact not_mem_empty (m, n) hedge

/-- The operations `before`, the edge, and some operations behind it: the edge closes a cycle,
and the graph stays cyclic. -/
structure ClosedBy (before : List Operation) (p c : CellId) (behind : List Operation) : Prop where
  acyclic : (after before).hasCycle = false
  closes : (after before).Closes p c
  since : ∀ later, later <+: behind → (after (before ++ .addEdge p c :: later)).hasCycle = true

/-- **A graph is cyclic because of one edge**, which was recorded when the graph was
acyclic for the last time. -/
theorem exists_closedBy {history : List Operation} (hcycle : (after history).hasCycle = true) :
    ∃ before p c behind, history = before ++ .addEdge p c :: behind ∧
      ClosedBy before p c behind := by
  induction history using List.reverseRecOn with
  | nil => exact absurd hcycle (Bool.eq_false_iff.1 hasCycle_empty)
  | append_singleton history operation ih =>
    by_cases hbefore : (after history).hasCycle = true
    · obtain ⟨before, p, c, behind, rfl, hclosed⟩ := ih hbefore
      refine ⟨before, p, c, behind ++ [operation], by simp, hclosed.acyclic, hclosed.closes,
        fun later hlater => ?_⟩
      rcases List.prefix_concat_iff.1 hlater with rfl | hlater
      · rwa [← List.cons_append, ← List.append_assoc]
      · exact hclosed.since later hlater
    · rw [Bool.not_eq_true] at hbefore
      rw [after_concat] at hcycle
      cases operation with
      | addEdge p c =>
        refine ⟨history, p, c, [], rfl, hbefore, ?_, fun later hlater => ?_⟩
        · exact (hasCycle_addEdge_iff.1 hcycle).resolve_left (Bool.eq_false_iff.1 hbefore)
        · rw [List.prefix_nil.1 hlater, after_concat]
          exact hcycle
      | _ =>
        exact absurd hcycle (Bool.eq_false_iff.1 (hasCycle_perform_of_removes _ trivial hbefore))

end Notebook.Graph
