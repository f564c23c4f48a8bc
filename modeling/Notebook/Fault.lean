import Notebook.CellId
import Notebook.Tag
import Notebook.Text.Quoted

/-!
# Faults

Everything that can go wrong in the engine, as causes: which cell, which tag, which
name. The wording of a cause is in one function, `Fault.message`, and its short stable
name in another, `Fault.kind`.

A runner reports a failure of its own as a name and a message (`RunFailure`). An engine fault that a
running cell meets is turned into such a failure without loss: the kind becomes the name.
-/

set_option autoImplicit false

namespace Notebook

/-- The causes for which an operation of the engine is refused. -/
inductive Fault where
  | unknownCell (id : CellId)
  /-- A run was asked for while the dependency graph has a cycle, or a cell reads itself. -/
  | cyclicDependency (id : CellId)
  /-- The runner reported a failure for this cell. -/
  | executionFailure (cell : CellId) (message : String)
  /-- Cells that a cascade visited and whose execution failed. -/
  | cascadeFailure (cells : List CellId)
  /-- A result was to be published for a cell that is not the one being run. -/
  | unauthorizedWrite (target executing : CellId)
  /-- No cell currently defines the tag. -/
  | undefinedTag (tag : Tag)
  /-- The only current definer of the tag is the cell that asks. -/
  | ambiguousTag (tag : Tag) (requester : CellId)
  /-- A stored output was asked for where there is none. -/
  | notYetComputed (id : CellId)
  /-- The cell was called as a function and has no signature. -/
  | notAFunction (id : CellId)
  /-- A call supplied the wrong number of arguments. -/
  | argumentCount (cell : CellId) (expected got : Nat)
  /-- A declared output variable is not bound after the run. -/
  | missingOutputVariable (cell : CellId) (name : String)
  /-- The text is no cell identity. -/
  | invalidCellId (text : String)
  /-- A notebook could not be written. -/
  | serialization (detail : String)
  /-- A notebook could not be read. -/
  | deserialization (detail : String)
  /-- A configuration could not be read or applied. -/
  | config (detail : String)
  /-- A file could not be read. -/
  | io (detail : String)
  deriving DecidableEq, Repr

namespace Fault

/-- The short, stable name of a cause. -/
def kind : Fault → String
  | unknownCell _ => "UnknownCell"
  | cyclicDependency _ => "CyclicDependency"
  | executionFailure _ _ => "ExecutionFailure"
  | cascadeFailure _ => "CascadeFailure"
  | unauthorizedWrite _ _ => "UnauthorizedWrite"
  | undefinedTag _ => "UndefinedTag"
  | ambiguousTag _ _ => "AmbiguousTag"
  | notYetComputed _ => "NotYetComputed"
  | notAFunction _ => "NotAFunction"
  | argumentCount _ _ _ => "ArgumentCount"
  | missingOutputVariable _ _ => "MissingOutputVariable"
  | invalidCellId _ => "InvalidCellId"
  | serialization _ => "SerializationError"
  | deserialization _ => "DeserializationError"
  | config _ => "ConfigError"
  | io _ => "IoError"

def message : Fault → String
  | unknownCell id => s!"Invalid reference to cell '{id.toText}'"
  | cyclicDependency id => s!"Out[{id.toText}] results in a cyclical call"
  | executionFailure cell message => s!"Cell '{cell.toText}' raised an exception: {message}"
  | cascadeFailure cells =>
    let names := String.intercalate ", " (cells.map fun id => s!"'{id.toText}'")
    s!"Cell(s) {names} raised an exception"
  | unauthorizedWrite target executing =>
    s!"Out[{target.toText}] can only be modified by its own cell (executing: {executing.toText})"
  | undefinedTag tag => s!"No cell defines '{tag.name}'"
  | ambiguousTag tag requester =>
    s!"No external link to '{tag.name}' for cell '{requester.toText}'"
  | notYetComputed id => s!"Cell '{id.toText}' has not yet been computed"
  | notAFunction id => s!"Cell '{id.toText}' has no function signature"
  | argumentCount cell expected got =>
    s!"Cell '{cell.toText}' takes {expected} argument(s) but {got} were given"
  | missingOutputVariable cell name =>
    s!"Cell '{cell.toText}' did not define output variable '{name}'"
  | invalidCellId text => s!"Invalid cell id: {Text.quoted text}"
  | serialization detail => s!"Serialization error: {detail}"
  | deserialization detail => s!"Deserialization error: {detail}"
  | config detail => s!"Configuration error: {detail}"
  | io detail => s!"I/O error: {detail}"

end Fault

/-- A failure that a runner reports: the kind of exception and its rendered value. -/
structure RunFailure where
  name : String
  message : String
  deriving DecidableEq, Repr

namespace RunFailure

/-- The failure as one line of text. -/
def toText (failure : RunFailure) : String :=
  s!"{failure.name}: {failure.message}"

/-- An engine fault, met by a running cell, as a failure of its run. -/
def ofFault (fault : Fault) : RunFailure :=
  ⟨fault.kind, fault.message⟩

end RunFailure

/-- Reads an identity; the fault quotes the text that is none. -/
def CellId.parse (text : String) : Except Fault CellId :=
  match CellId.ofText? text with
  | some id => .ok id
  | none => .error (.invalidCellId text)

end Notebook
