import Notebook.Cell.Basic
import Notebook.Document.Basic
import Notebook.Flags
import Notebook.Graph.Reach
import Notebook.Links.Basic

/-!
# The engine

All state of a running notebook: the table of cells, the dependency graph, the registry of tags,
the queue of deletions that were not reported yet, the default run flags, and the *executing
slot*, which names the cell whose run is the innermost one in progress.

This module holds the state, what can be asked of it, and the small changes that concern one cell
or all cells alike. Batches, publications and runs are in modules of their own.
-/

set_option autoImplicit false

namespace Notebook

open Std

/-- The state of a running notebook. -/
structure Engine (V : Type) where
  graph : Graph := ∅
  links : Links := ∅
  cells : ExtTreeMap CellId (Cell V) := ∅
  /-- Cells that were deleted and not reported yet, in the order of their deletion. -/
  deleted : List CellId := []
  flags : RunFlags := {}
  /-- The cell whose run is the innermost one in progress. -/
  executing : Option CellId := none
  deriving DecidableEq

namespace Engine

variable {V : Type}

/-! ## 1. Beginnings -/

def new : Engine V := {}

/-- An engine without cells, with default run flags of its own. -/
def withFlags (flags : RunFlags) : Engine V := { flags }

instance : Inhabited (Engine V) := ⟨new⟩

def clear (e : Engine V) : Engine V := withFlags e.flags

/-! ## 2. Asking -/

/-- Is the cell in the table? -/
def contains (e : Engine V) (id : CellId) : Bool :=
  e.cells.contains id

/-- The stored output of a cell, without running anything. -/
def cachedOutput (e : Engine V) (id : CellId) : Except Fault (Output V) :=
  match e.cells[id]? with
  | none => .error (.unknownCell id)
  | some cell =>
    match cell.output with
    | none => .error (.notYetComputed id)
    | some output => .ok output

/-- The reported part of every cell. -/
def snapshots (e : Engine V) : ExtTreeMap CellId Snapshot :=
  e.cells.map fun id cell => cell.snapshot id

/-- The notebook as it would be saved. -/
def document (e : Engine V) : Document where
  cells := e.snapshots
  edges := e.graph.edges

/-- The output tags of every cell, by tag. -/
def declarations (e : Engine V) : Declarations :=
  e.cells.toList.foldl
    (fun found entry => entry.2.outputTags.toList.foldl
      (fun found tag => found.insert tag ((found.getD tag ∅).insert entry.1)) found) ∅

/-- The cells that have a name, with their names. -/
def names (e : Engine V) : List (CellId × String) :=
  e.cells.toList.filterMap fun entry => entry.2.name.map fun name => (entry.1, name)

/-- The cell of each name. Of several cells with one name it is the last one. -/
def idsByName (e : Engine V) : ExtTreeMap String CellId :=
  ExtTreeMap.ofList (e.names.map fun entry => (entry.2, entry.1))

/-! ## 3. Small changes -/

/-- Changes one cell, which has to be in the table. -/
def modifyCell (e : Engine V) (id : CellId) (f : Cell V → Cell V) : Except Fault (Engine V) :=
  match e.cells[id]? with
  | none => .error (.unknownCell id)
  | some cell => .ok { e with cells := e.cells.insert id (f cell) }

/-- Makes a cell stale. The next execution then runs its code, unless the cell always answers its
stored output. -/
def invalidate (e : Engine V) (id : CellId) : Except Fault (Engine V) :=
  e.modifyCell id Cell.markStale

def setRunning (e : Engine V) (id : CellId) : Except Fault (Engine V) :=
  e.modifyCell id Cell.markRunning

/-- Marks every descendant of a cell as stale. -/
def markDescendantsStale (e : Engine V) (id : CellId) : Engine V :=
  let reached := e.graph.descendants id
  { e with cells := e.cells.map fun child cell => if child ∈ reached then cell.markStale else cell }

/-- Forgets of every cell that it ran. -/
def resetDidRun (e : Engine V) : Engine V :=
  { e with cells := e.cells.map fun _ cell => cell.resetDidRun }

def overrideFlags (e : Engine V) (o : FlagOverrides) : Engine V :=
  { e with flags := e.flags.override o }

def dropDeleted (e : Engine V) : Engine V :=
  { e with deleted := [] }

/-- Registers a cell as a definer of a tag. -/
def addLink (e : Engine V) (tag : Tag) (cell : CellId) (makeCurrent : Bool) : Engine V :=
  { e with links := e.links.addLink tag cell makeCurrent }

def addLinks (e : Engine V) (declared : Declarations) : Engine V :=
  { e with links := e.links.addLinks declared }

/-- Forgets everything that a cell defines. -/
def removeLinks (e : Engine V) (cell : CellId) : Engine V :=
  { e with links := e.links.removeLinks cell }

end Engine

end Notebook
