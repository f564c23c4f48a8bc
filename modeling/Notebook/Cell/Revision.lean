import Notebook.CellId
import Notebook.Tag

/-!
# Revisions

A revision is what the front end says about one cell: its code in three forms, the references it
declares, the tags it declares to expose, its name and its two policies. A batch holds one
revision for every cell that the notebook is to have.

The *persistent* code is the canonical form, the one that decides whether a cached output is still
good. The *display* code is what the user sees, and the *executed* code is the display code as it
was when it was last submitted.
-/

set_option autoImplicit false

namespace Notebook

open Std

/-- Declared references: the cells that are read, and the tags read from each of them. -/
abbrev References := ExtTreeMap CellId (ExtTreeSet Tag)

instance : DecidableEq References := inferInstance

/-- What a batch says about one cell. -/
structure Revision where
  /-- The code as the user sees it. -/
  code : Option String := none
  /-- The canonical code; a revision without one leaves the stored one alone. -/
  persistentCode : Option String := none
  /-- The code as it was last submitted. -/
  executedCode : Option String := none
  inputs : References := ∅
  outputTags : ExtTreeSet Tag := ∅
  name : Option String := none
  /-- Is it executed again by the cascades that come to it? -/
  autoUpdate : Bool := false
  /-- Does an execution always answer the stored output, stale or not? -/
  forceCached : Bool := false
  deriving DecidableEq

/-- One revision for each cell that the notebook is to have. -/
abbrev Batch := ExtTreeMap CellId Revision

namespace Revision

/-- A revision whose display code and persistent code are both `code`. -/
def ofCode (code : String) : Revision :=
  { code := some code, persistentCode := some code }

/-- Replaces the display code and leaves the persistent code alone. -/
def withDisplayCode (r : Revision) (code : String) : Revision :=
  { r with code := some code }

/-- Declares a reference to `cell` that reads the given tags, besides those it reads already. -/
def withInput (r : Revision) (cell : CellId) (tags : List Tag) : Revision :=
  { r with
    inputs := r.inputs.insert cell (tags.foldl (fun s t => s.insert t) (r.inputs.getD cell ∅)) }

def withOutputTag (r : Revision) (tag : Tag) : Revision :=
  { r with outputTags := r.outputTags.insert tag }

def withName (r : Revision) (name : String) : Revision :=
  { r with name := some name }

/-- Says whether cascades execute the cell again. -/
def withAutoUpdate (r : Revision) (enabled : Bool) : Revision :=
  { r with autoUpdate := enabled }

/-- Says whether the cell always answers its stored output. -/
def withForceCached (r : Revision) (enabled : Bool) : Revision :=
  { r with forceCached := enabled }

end Revision

end Notebook
