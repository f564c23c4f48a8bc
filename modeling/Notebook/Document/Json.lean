import Notebook.Cell.Json
import Notebook.Document.Basic
import Notebook.Fault
import Notebook.Json.Reader
import Notebook.Json.Writer

/-!
# Saved notebooks as JSON

The form for people and other programs: the snapshots by identity, in ascending order, and the
edges as pairs of identities, laid out over lines. Reading needs both fields and takes any layout.
-/

set_option autoImplicit false

namespace Notebook

namespace Document

def edgeToJson (edge : CellId × CellId) : Json :=
  .array [edge.1.toJson, edge.2.toJson]

def edgeOfJson? : Json → Option (CellId × CellId)
  | .array [parent, child] => do
    let parent ← CellId.ofJson? parent
    let child ← CellId.ofJson? child
    some (parent, child)
  | _ => none

def toJson (d : Document) : Json :=
  .ofMembers [
    ("cells", CellId.tableToJson Snapshot.toJson d.cells),
    ("edges", .array (d.edges.map edgeToJson))]

def ofJson? (j : Json) : Option Document := do
  let f ← Json.Fields.read ["cells", "edges"] j
  let cells ← f.required "cells" (CellId.tableOfJson? Snapshot.ofJson?)
  let edges ← f.required "edges" (Json.arrayOf edgeOfJson?)
  some { cells, edges }

def toText (d : Document) : String := d.toJson.pretty

def ofText (text : String) : Except Fault Document :=
  match (Json.ofText? text).bind ofJson? with
  | some document => .ok document
  | none => .error (.deserialization "the text is no saved notebook")

end Document

end Notebook
