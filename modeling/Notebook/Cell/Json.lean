import Notebook.Cell.Snapshot
import Notebook.Json.Record

/-!
# Cells as JSON

Revisions come from the front end and snapshots go to it, both as JSON. In a revision every field
may be left out. In a snapshot the identity, the references and the tags have to be there, and so
has every field before the two policies when the snapshot is given by position.

A table of cells is an object whose names are identities. Names that differ in their letters may
denote the same cell; then the last one counts, as it does for a name that is repeated.
-/

set_option autoImplicit false

namespace Notebook

open Std

/-! ## 1. Identities, tags and tables -/

def CellId.toJson (id : CellId) : Json := .text id.toText

def CellId.ofJson? (j : Json) : Option CellId :=
  j.string?.bind CellId.ofText?

def Tag.toJson (tag : Tag) : Json := .text tag.name

def Tag.ofJson? (j : Json) : Option Tag :=
  j.string?.map Tag.mk

def Tag.listToJson (tags : List Tag) : Json :=
  .array (tags.map Tag.toJson)

def Tag.listOfJson? : Json → Option (List Tag) :=
  Json.arrayOf Tag.ofJson?

namespace CellId

/-- A table of cells as JSON, ascending. -/
def tableToJson {α : Type} (encode : α → Json) (table : ExtTreeMap CellId α) : Json :=
  .ofMembers (table.toList.map fun entry => (entry.1.toText, encode entry.2))

def tableOfJson? {α : Type} (decode : Json → Option α) (j : Json) :
    Option (ExtTreeMap CellId α) := do
  let members ← j.members?
  let entries ← members.mapM fun m => do
    let id ← CellId.ofText? m.1
    let value ← decode m.2
    some (id, value)
  some (ExtTreeMap.ofList entries)

end CellId

/-! ## 2. Revisions -/

namespace Revision

/-- The fields of a revision, in the order of their declaration. -/
def fieldNames : List String :=
  ["code", "persistent_code", "executed_code", "input_refs", "output_tags", "name", "auto_update",
    "force_cached"]

def toJson (r : Revision) : Json :=
  .ofMembers [
    ("code", .text? r.code),
    ("persistent_code", .text? r.persistentCode),
    ("executed_code", .text? r.executedCode),
    ("input_refs", CellId.tableToJson (fun tags => Tag.listToJson tags.toList) r.inputs),
    ("output_tags", Tag.listToJson r.outputTags.toList),
    ("name", .text? r.name),
    ("auto_update", .bool r.autoUpdate),
    ("force_cached", .bool r.forceCached)]

def tagSet? (j : Json) : Option (ExtTreeSet Tag) :=
  (Tag.listOfJson? j).map fun tags => ExtTreeSet.ofList tags

def ofJson? (j : Json) : Option Revision := do
  let f ← Json.Fields.read fieldNames j
  let code ← f.optional "code" Json.string?
  let persistentCode ← f.optional "persistent_code" Json.string?
  let executedCode ← f.optional "executed_code" Json.string?
  let inputs ← f.withDefault "input_refs" ∅ (CellId.tableOfJson? tagSet?)
  let outputTags ← f.withDefault "output_tags" ∅ tagSet?
  let name ← f.optional "name" Json.string?
  let autoUpdate ← f.withDefault "auto_update" false Json.bool?
  let forceCached ← f.withDefault "force_cached" false Json.bool?
  some { code, persistentCode, executedCode, inputs, outputTags, name, autoUpdate, forceCached }

end Revision

def Batch.ofJson? : Json → Option Batch :=
  CellId.tableOfJson? Revision.ofJson?

/-! ## 3. Snapshots -/

namespace Snapshot

/-- The fields of a snapshot, in the order of their declaration. -/
def fieldNames : List String :=
  ["cell_id", "name", "code", "persistent_code", "executed_code", "input_refs", "output_tags",
    "auto_update", "force_cached"]

def toJson (s : Snapshot) : Json :=
  .ofMembers [
    ("cell_id", s.cellId.toJson),
    ("name", .text? s.name),
    ("code", .text? s.code),
    ("persistent_code", .text? s.persistentCode),
    ("executed_code", .text? s.executedCode),
    ("input_refs", CellId.tableToJson Tag.listToJson s.inputs),
    ("output_tags", Tag.listToJson s.outputTags),
    ("auto_update", .bool s.autoUpdate),
    ("force_cached", .bool s.forceCached)]

def ofJson? (j : Json) : Option Snapshot := do
  let f ← Json.Fields.read fieldNames j
  let cellId ← f.required "cell_id" CellId.ofJson?
  let name ← f.optionalNamed "name" Json.string?
  let code ← f.optionalNamed "code" Json.string?
  let persistentCode ← f.optionalNamed "persistent_code" Json.string?
  let executedCode ← f.optionalNamed "executed_code" Json.string?
  let inputs ← f.required "input_refs" (CellId.tableOfJson? Tag.listOfJson?)
  let outputTags ← f.required "output_tags" Tag.listOfJson?
  let autoUpdate ← f.withDefault "auto_update" false Json.bool?
  let forceCached ← f.withDefault "force_cached" false Json.bool?
  some {
    cellId, name, code, persistentCode, executedCode, inputs, outputTags, autoUpdate, forceCached }

end Snapshot

end Notebook
