import Notebook.Graph.Basic

/-!
# Reachability

Which cells an edit of one cell can concern, and in which order a request visits them. A
breadth-first walk with a queue: the children of the start wait first, in ascending order. A node
that comes up and was not listed before is listed, and those of its children that were not listed
yet wait behind all others. The start is not listed in advance, so it comes up like any other node
if a cycle leads back to it.

> **each reachable node is listed once**, nearest first. The start is listed only if it lies on a
> cycle.

A node counts as seen when it comes up and not when it is put into the queue, so it may wait there
several times. It still puts its children there only once. So nodes enter the queue once for each
child of the start and at most once for each edge, and that number bounds the rounds.
-/

set_option autoImplicit false

namespace Notebook

open Std

/-- A walk in progress. -/
structure Walk where
  /-- The nodes that were listed. -/
  visited : ExtTreeSet CellId := ∅
  /-- The same nodes, in the order in which they came up. -/
  order : List CellId := []
  /-- The nodes that wait, the next one first. -/
  frontier : List CellId

namespace Walk

/-- A node comes up. `rest` waits behind it, and `next` has the edges of the walk. -/
def visit (next : Rows CellId CellId) (w : Walk) (node : CellId) (rest : List CellId) : Walk :=
  if node ∈ w.visited then { w with frontier := rest }
  else
    let visited := w.visited.insert node
    { visited
      order := w.order ++ [node]
      frontier := rest ++ (next.row node).toList.filter fun n => !visited.contains n }

/-- Goes on until no node waits, for at most `rounds` rounds. -/
def run (next : Rows CellId CellId) : Nat → Walk → Walk
  | 0, w => w
  | rounds + 1, w =>
    match w.frontier with
    | [] => w
    | node :: rest => run next rounds (w.visit next node rest)

/-- A walk that begins: the neighbours of the start wait. -/
def start (next : Rows CellId CellId) (node : CellId) : Walk where
  frontier := (next.row node).toList

/-- The whole walk from a node along the edges of `next`. -/
def whole (next : Rows CellId CellId) (node : CellId) : Walk :=
  run next ((next.row node).size + next.size) (start next node)

end Walk

namespace Graph

/-- The walk from a node to its descendants. -/
def walkDown (g : Graph) (node : CellId) : Walk :=
  Walk.whole g.edgeSet.rights node

/-- The walk from a node to its ancestors. -/
def walkUp (g : Graph) (node : CellId) : Walk :=
  Walk.whole g.edgeSet.lefts node

/-- The descendants of `node`, nearest first. -/
def descendantOrder (g : Graph) (node : CellId) : List CellId :=
  (g.walkDown node).order

/-- The ancestors of `node`, nearest first. -/
def ancestorOrder (g : Graph) (node : CellId) : List CellId :=
  (g.walkUp node).order

def descendants (g : Graph) (node : CellId) : ExtTreeSet CellId :=
  ExtTreeSet.ofList (g.descendantOrder node)

def ancestors (g : Graph) (node : CellId) : ExtTreeSet CellId :=
  ExtTreeSet.ofList (g.ancestorOrder node)

theorem mem_descendants {g : Graph} {node n : CellId} :
    n ∈ g.descendants node ↔ n ∈ g.descendantOrder node := by
  simp [descendants, ExtTreeSet.mem_ofList]

theorem mem_ancestors {g : Graph} {node n : CellId} :
    n ∈ g.ancestors node ↔ n ∈ g.ancestorOrder node := by
  simp [ancestors, ExtTreeSet.mem_ofList]

end Graph

end Notebook
