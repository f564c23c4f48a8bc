import Notebook.Graph.Basic

/-!
# Cycles

A graph is cyclic when some node reaches itself. The test counts for each node the parents
that are not *retired* yet. A node that nothing points at is retired first, and a node whose
last parent was retired is next. A node on a cycle has to wait for the one before it on the
cycle, so it is never retired:

> **the graph is cyclic if some node with a parent is left over**, which is what `hasCycle` looks
> for.

A node is put into the queue at most once, as a node without parents or when its last parent is
retired, so there are no more rounds than nodes with a child and nodes with a parent.
-/

set_option autoImplicit false

namespace Notebook

open Std

/-- The test in progress. -/
structure Sweep where
  /-- For each node with a parent, how many of its parents are not retired yet. -/
  degrees : ExtTreeMap CellId Nat
  /-- The nodes that are to be retired, the next one first. -/
  frontier : List CellId
  /-- How many nodes with a parent were put into the queue. -/
  retired : Nat := 0

namespace Sweep

/-- One of the parents of the node is retired. If it was the last one, the node is to be retired
as well. -/
def release (s : Sweep) (node : CellId) : Sweep :=
  match s.degrees[node]? with
  | none => s
  | some degree =>
    let degrees := s.degrees.insert node (degree - 1)
    if degree - 1 = 0 then { degrees, frontier := s.frontier ++ [node], retired := s.retired + 1 }
    else { s with degrees }

/-- Retires nodes until none is left that could be, for at most `rounds` rounds. -/
def run (g : Graph) : Nat → Sweep → Sweep
  | 0, s => s
  | rounds + 1, s =>
    match s.frontier with
    | [] => s
    | node :: rest =>
      run g rounds ((g.children node).toList.foldl release { s with frontier := rest })

end Sweep

namespace Graph

/-- How many parents each node has that has any. -/
def inDegrees (g : Graph) : ExtTreeMap CellId Nat :=
  g.edgeSet.lefts.table.map fun _ parents => parents.size

/-- The test at its beginning: the nodes that have children and no parents are to be retired. -/
def sweepStart (g : Graph) : Sweep :=
  let degrees := g.inDegrees
  { degrees, frontier := g.edgeSet.rights.keys.filter fun node => !degrees.contains node }

/-- The test at its end. -/
def sweep (g : Graph) : Sweep :=
  Sweep.run g (g.edgeSet.rights.keys.length + g.edgeSet.lefts.keys.length) g.sweepStart

/-- Does some node reach itself? -/
def hasCycle (g : Graph) : Bool :=
  g.sweep.retired != g.sweep.degrees.size

end Graph

end Notebook
