import Notebook.Engine.Basic

/-!
# Batches

A batch says what the notebook is to hold: one revision for each cell. Applying it goes through the
notebook in four passes.

1. Cells that the batch leaves out are deleted, with their edges and links, and queued for the
   report.
2. Every other cell is revised, or created and then revised.
3. A cell whose persistent code changed loses its links and every edge to what it read, and all its
   descendants become stale. A cell whose code did not change loses only the edges to references
   that it declared before and declares no longer.
4. Declared references between existing cells become edges.

A cell is compared with its revision before any cell is touched by the third pass, so the order of
the batch does not matter for who counts as changed.
-/

set_option autoImplicit false

namespace Notebook

open Std

namespace Engine

variable {V : Type}

/-- Deletes a cell with its edges and its links, and queues the deletion. -/
def removeCell (e : Engine V) (id : CellId) : Engine V :=
  { e with
    graph := e.graph.removeNode id
    links := e.links.removeLinks id
    cells := e.cells.erase id
    deleted := e.deleted ++ [id] }

/-- The cells that a batch leaves out, ascending. -/
def leftOut (e : Engine V) (batch : Batch) : List CellId :=
  e.cells.keys.filter fun id => !batch.contains id

/-- The state of a cell before it is revised: its stored state, or that of a new cell. -/
def cellOrNew (e : Engine V) (id : CellId) : Cell V :=
  (e.cells[id]?).getD Cell.new

/-- The cells whose persistent code a batch changes, ascending. -/
def changedBy (e : Engine V) (batch : Batch) : List CellId :=
  (batch.toList.filter fun entry => (e.cellOrNew entry.1).changedBy entry.2).map Prod.fst

/-- The edges that cells with unchanged code declared before the batch and do not declare after
it. -/
def withdrawnBy (e : Engine V) (batch : Batch) : List (CellId × CellId) :=
  (batch.toList.filter fun entry => !(e.cellOrNew entry.1).changedBy entry.2).flatMap fun entry =>
    ((e.cellOrNew entry.1).inputs.keys.filter fun parent => !entry.2.inputs.contains parent).map
      fun parent => (parent, entry.1)

/-- The cells after their revision. Every cell of the batch is in the table, and no other. -/
def revised (e : Engine V) (batch : Batch) : ExtTreeMap CellId (Cell V) :=
  batch.map fun id revision => (e.cellOrNew id).revise revision

/-- The declared references between existing cells, as edges. -/
def declaredEdges (e : Engine V) : List (CellId × CellId) :=
  e.cells.toList.flatMap fun entry =>
    (entry.2.inputs.keys.filter fun parent => e.contains parent).map fun parent => (parent, entry.1)

/-- What a change of its persistent code means for a cell: it defines nothing and has read
nothing, and all its descendants are stale. -/
def disconnect (e : Engine V) (id : CellId) : Engine V :=
  markDescendantsStale
    { e with
      links := e.links.removeLinks id
      graph := (e.graph.removeParents id).2 } id

/-- Makes the notebook hold what the batch says. -/
def update (e : Engine V) (batch : Batch) : Engine V :=
  let kept := (e.leftOut batch).foldl removeCell e
  let told := (kept.changedBy batch).foldl disconnect { kept with cells := kept.revised batch }
  -- Declared edges come last, so a reference that is still declared survives the third pass.
  { told with
    graph := (told.graph.removeEdges (kept.withdrawnBy batch)).addEdges told.declaredEdges }

/-- Rebuilds the notebook from a saved one. The restored cells are stale. Run flags stay as they
are, and edges of cells that are not there are left out. -/
def restore (e : Engine V) (document : Document) : Engine V :=
  -- A snapshot is filed under an identity, and that is the cell it restores.
  let told := e.clear.update (Batch.ofSnapshots document.cells)
  { told with
    graph := told.graph.addEdges
      (document.edges.filter fun edge => told.contains edge.1 && told.contains edge.2)
    deleted := [] }

end Engine

end Notebook
