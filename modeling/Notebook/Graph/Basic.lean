import Notebook.CellId
import Notebook.PairSet.Basic

/-!
# The dependency graph

An edge from a parent to a child says that the child reads the parent's output. Edges are recorded
one at a time, at the moment a cell reads another, so the graph makes no promise about cycles: a
cycle is a condition that the engine looks for before it runs anything (`Notebook.Graph.Cycle`).

The graph *is* its set of edges. A node exists as far as it has an edge, and two graphs
with the same edges are equal (`Graph.ext`). Every operation is described by what it
does to membership of an edge.
-/

set_option autoImplicit false

namespace Notebook

open Std

/-- The edges between cells, from a parent to a child. -/
structure Graph where
  edgeSet : PairSet CellId CellId

namespace Graph

/-! ## 1. Membership -/

instance : Membership (CellId × CellId) Graph := ⟨fun g e => e ∈ g.edgeSet⟩

instance (g : Graph) (e : CellId × CellId) : Decidable (e ∈ g) :=
  inferInstanceAs (Decidable (e ∈ g.edgeSet))

instance : DecidableEq Graph := fun g h =>
  decidable_of_iff (g.edgeSet = h.edgeSet) ⟨fun e => by cases g; cases h; simp_all,
    fun e => by rw [e]⟩

theorem ext {g h : Graph} (e : ∀ p c, (p, c) ∈ g ↔ (p, c) ∈ h) : g = h := by
  cases g; cases h
  exact congrArg Graph.mk (PairSet.ext e)

def empty : Graph := ⟨∅⟩

instance : EmptyCollection Graph := ⟨empty⟩

@[simp] theorem not_mem_empty (e : CellId × CellId) : e ∉ (∅ : Graph) :=
  PairSet.not_mem_empty e

/-! ## 2. Looking -/

/-- Is there an edge from `parent` to `child`? -/
def hasEdge (g : Graph) (parent child : CellId) : Bool :=
  decide ((parent, child) ∈ g)

/-- The cells that read `node` directly. -/
def children (g : Graph) (node : CellId) : ExtTreeSet CellId :=
  g.edgeSet.rights.row node

/-- The cells that `node` reads directly. -/
def parents (g : Graph) (node : CellId) : ExtTreeSet CellId :=
  g.edgeSet.lefts.row node

/-- All edges, ascending by parent and then by child. -/
def edges (g : Graph) : List (CellId × CellId) :=
  g.edgeSet.toList

def edgeCount (g : Graph) : Nat :=
  g.edgeSet.size

def isEmpty (g : Graph) : Bool :=
  g.edgeSet.isEmpty

/-- The nodes with at least one edge, ascending. -/
def nodes (g : Graph) : List CellId :=
  (ExtTreeSet.ofList (g.edgeSet.rights.keys ++ g.edgeSet.lefts.keys)).toList

theorem mem_children {g : Graph} {parent child : CellId} :
    child ∈ g.children parent ↔ (parent, child) ∈ g := Iff.rfl

theorem mem_parents {g : Graph} {parent child : CellId} :
    parent ∈ g.parents child ↔ (parent, child) ∈ g :=
  PairSet.mem_iff_left.symm

@[simp] theorem hasEdge_eq_true {g : Graph} {parent child : CellId} :
    g.hasEdge parent child = true ↔ (parent, child) ∈ g := by
  simp [hasEdge]

/-! ## 3. Changing

An operation that changes edges also answers what was there before: whether the edge was new,
whether it was present, which parents or children a node had. -/

/-- Records that `child` reads `parent`, and answers whether the edge is new. -/
def addEdge (g : Graph) (parent child : CellId) : Bool × Graph :=
  (!g.hasEdge parent child, ⟨g.edgeSet.insert parent child⟩)

/-- Removes one edge, and answers whether it was present. -/
def removeEdge (g : Graph) (parent child : CellId) : Bool × Graph :=
  (g.hasEdge parent child, ⟨g.edgeSet.erase parent child⟩)

/-- Removes every edge into `node`, and answers its former parents. -/
def removeParents (g : Graph) (node : CellId) : ExtTreeSet CellId × Graph :=
  (g.parents node, ⟨g.edgeSet.eraseRight node⟩)

/-- Removes every edge out of `node`, and answers its former children. -/
def removeChildren (g : Graph) (node : CellId) : ExtTreeSet CellId × Graph :=
  (g.children node, ⟨g.edgeSet.eraseLeft node⟩)

/-- Removes every edge that touches `node`. -/
def removeNode (g : Graph) (node : CellId) : Graph :=
  ((g.removeParents node).2.removeChildren node).2

theorem mem_addEdge {g : Graph} {parent child p c : CellId} :
    (p, c) ∈ (g.addEdge parent child).2 ↔ (p = parent ∧ c = child) ∨ (p, c) ∈ g :=
  PairSet.mem_insert

theorem mem_removeEdge {g : Graph} {parent child p c : CellId} :
    (p, c) ∈ (g.removeEdge parent child).2 ↔ (p, c) ∈ g ∧ ¬ (p = parent ∧ c = child) :=
  PairSet.mem_erase

theorem mem_removeParents {g : Graph} {node p c : CellId} :
    (p, c) ∈ (g.removeParents node).2 ↔ (p, c) ∈ g ∧ c ≠ node :=
  PairSet.mem_eraseRight

theorem mem_removeChildren {g : Graph} {node p c : CellId} :
    (p, c) ∈ (g.removeChildren node).2 ↔ (p, c) ∈ g ∧ p ≠ node :=
  PairSet.mem_eraseLeft

theorem mem_removeNode {g : Graph} {node p c : CellId} :
    (p, c) ∈ g.removeNode node ↔ (p, c) ∈ g ∧ p ≠ node ∧ c ≠ node := by
  rw [removeNode, mem_removeChildren, mem_removeParents, and_assoc, and_comm (a := c ≠ node)]

/-- Records several edges, one after the other. -/
def addEdges (g : Graph) (new : List (CellId × CellId)) : Graph :=
  new.foldl (fun h e => (h.addEdge e.1 e.2).2) g

/-- Removes several edges, one after the other. -/
def removeEdges (g : Graph) (old : List (CellId × CellId)) : Graph :=
  old.foldl (fun h e => (h.removeEdge e.1 e.2).2) g

theorem mem_addEdges {g : Graph} {new : List (CellId × CellId)} {e : CellId × CellId} :
    e ∈ g.addEdges new ↔ e ∈ new ∨ e ∈ g := by
  induction new generalizing g with
  | nil => simp [addEdges]
  | cons n ns ih =>
    show e ∈ ((g.addEdge n.1 n.2).2.addEdges ns) ↔ _
    obtain ⟨p, c⟩ := e
    obtain ⟨p', c'⟩ := n
    rw [ih, mem_addEdge, List.mem_cons, Prod.mk.injEq]
    constructor
    · rintro (h | h | h)
      · exact .inl (.inr h)
      · exact .inl (.inl h)
      · exact .inr h
    · rintro ((h | h) | h)
      · exact .inr (.inl h)
      · exact .inl h
      · exact .inr (.inr h)

theorem mem_removeEdges {g : Graph} {old : List (CellId × CellId)} {e : CellId × CellId} :
    e ∈ g.removeEdges old ↔ e ∈ g ∧ e ∉ old := by
  induction old generalizing g with
  | nil => simp [removeEdges]
  | cons n ns ih =>
    show e ∈ ((g.removeEdge n.1 n.2).2.removeEdges ns) ↔ _
    obtain ⟨p, c⟩ := e
    obtain ⟨p', c'⟩ := n
    rw [ih, mem_removeEdge, List.mem_cons, Prod.mk.injEq, not_or, and_assoc]

end Graph

end Notebook
