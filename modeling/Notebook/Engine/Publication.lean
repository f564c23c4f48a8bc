import Notebook.Engine.Basic

/-!
# Publications

A run begins, and ends with the publication of an output or with a failure. The cell that runs
owns the executing slot from the beginning of its run to the end, runs of other cells that it
causes excepted. Publishing needs a *context*, which a runner is handed for one run. A context is
good for the cell it names as long as that cell owns the slot, so a context that is kept beyond
its run is refused unless the same cell happens to run again.
-/

set_option autoImplicit false

namespace Notebook

open Std

/-- What a runner is handed for one run, and acts under. -/
structure Context where
  /-- The cell that is being run. -/
  cell : CellId
  deriving DecidableEq, Repr

namespace Engine

variable {V : Type}

/-- The beginning of a run: the cell is running, its display code is what is executed, and
it owns the executing slot. -/
def beginRun (e : Engine V) (id : CellId) : Engine V :=
  { e with
    cells := e.cells.modify id fun cell => cell.markRunning.recordExecutedCode
    executing := some id }

/-- Hands the executing slot back to whom it belonged before. -/
def resume (e : Engine V) (slot : Option CellId) : Engine V :=
  { e with executing := slot }

/-- What a publication does to the cell and to the rest: the tags of the output become current
links, and every descendant becomes stale. -/
def publish (e : Engine V) (id : CellId) (cell : Cell V) (output : Output V) : Engine V :=
  markDescendantsStale
    { e with
      cells := e.cells.insert id (cell.publish output)
      links := output.tags.toList.foldl (fun links tag => links.addLink tag id true) e.links } id

/-- Publishes an output for a cell. Only the cell that owns the executing slot may
publish, and only for itself. -/
def write (e : Engine V) (context : Context) (id : CellId) (output : Output V) :
    Except Fault (Engine V) :=
  if id = context.cell ∧ e.executing = some id then
    match e.cells[id]? with
    | none => .error (.unknownCell id)
    | some cell => .ok (e.publish id cell output)
  else .error (.unauthorizedWrite id context.cell)

/-- The edges to cells that read this one without declaring it. -/
def discoveredEdges (e : Engine V) (id : CellId) : List (CellId × CellId) :=
  ((e.graph.children id).toList.filter fun child =>
    !(e.cells[child]?).any fun cell => cell.declares id).map fun child => (id, child)

/-- The failure of a run: the output is dropped, and so are the edges to cells that only
discovered this one by reading it. -/
def failRun (e : Engine V) (id : CellId) : Engine V :=
  match e.cells[id]? with
  | none => e
  | some cell =>
    let failed := { e with cells := e.cells.insert id cell.fail }
    { failed with graph := failed.graph.removeEdges (failed.discoveredEdges id) }

end Engine

end Notebook
