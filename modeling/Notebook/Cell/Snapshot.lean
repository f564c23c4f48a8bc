import Notebook.Cell.Revision

/-!
# Snapshots

A snapshot is the part of a cell that is reported to the front end and saved: everything it was
told about the cell, and nothing that was computed. Tags are listed. A snapshot that the engine
takes lists them ascending and once each; one that was read from a saved notebook keeps the order
and the repetitions it was written with, until it is turned into a revision.
-/

set_option autoImplicit false

namespace Notebook

open Std

/-- The reported part of one cell. -/
structure Snapshot where
  cellId : CellId
  name : Option String
  code : Option String
  persistentCode : Option String
  executedCode : Option String
  inputs : ExtTreeMap CellId (List Tag)
  outputTags : List Tag
  autoUpdate : Bool := false
  forceCached : Bool := false
  deriving DecidableEq

namespace Snapshot

/-- The revision that says what the snapshot shows. The identity is not part of it. -/
def toRevision (s : Snapshot) : Revision where
  code := s.code
  persistentCode := s.persistentCode
  executedCode := s.executedCode
  inputs := s.inputs.map fun _ tags => ExtTreeSet.ofList tags
  outputTags := ExtTreeSet.ofList s.outputTags
  name := s.name
  autoUpdate := s.autoUpdate
  forceCached := s.forceCached

end Snapshot

/-- The batch that says what a set of snapshots shows, each under the identity it is filed under. -/
def Batch.ofSnapshots (cells : ExtTreeMap CellId Snapshot) : Batch :=
  cells.map fun _ s => s.toRevision

end Notebook
