import Notebook.Bytes.Packed
import Notebook.Document.Basic
import Notebook.Document.Header

/-!
# Saved notebooks in binary form

The header, and behind it the packed form of the notebook: its snapshots, each filed under its
identity in ascending order, and its edges. Identities are packed as their text. What follows
the packed notebook is ignored.

Before anything is decoded, the size is checked, which is limited to 64 MiB, and then the header.
When the same cell is filed twice, the last snapshot counts.
-/

set_option autoImplicit false

namespace Notebook

open Std Bytes

namespace Document

/-- The largest size of a saved notebook in bytes. -/
def maxSize : Nat := 64 * 1024 * 1024

/-! ## 1. Writing -/

def packId (id : CellId) : List UInt8 := packText id.toText

def packTags (tags : List Tag) : List UInt8 := packList (fun tag => packText tag.name) tags

def packSnapshot (s : Snapshot) : List UInt8 :=
  packId s.cellId ++ packOption packText s.name ++ packOption packText s.code ++
    packOption packText s.persistentCode ++ packOption packText s.executedCode ++
    packList (packPair packId packTags) s.inputs.toList ++ packTags s.outputTags ++
    packBool s.autoUpdate ++ packBool s.forceCached

def pack (d : Document) : List UInt8 :=
  packList (packPair packId packSnapshot) d.cells.toList ++
    packList (packPair packId packId) d.edges

/-- The notebook as it is saved. -/
def toBytes (d : Document) : ByteArray :=
  ⟨(Header.current.toBytes ++ d.pack).toArray⟩

/-! ## 2. Reading -/

def scanId : Scan CellId := Scan.named CellId.ofText?

def scanTags : Scan (List Tag) := Scan.list (Scan.named fun name => some ⟨name⟩)

def scanSnapshot : Scan Snapshot := do
  let cellId ← scanId
  let name ← Scan.option Scan.text
  let code ← Scan.option Scan.text
  let persistentCode ← Scan.option Scan.text
  let executedCode ← Scan.option Scan.text
  let inputs ← Scan.list (Scan.pair scanId scanTags)
  let outputTags ← scanTags
  let autoUpdate ← Scan.bool
  let forceCached ← Scan.bool
  pure {
    cellId, name, code, persistentCode, executedCode
    inputs := ExtTreeMap.ofList inputs
    outputTags, autoUpdate, forceCached }

def scan : Scan Document := do
  let cells ← Scan.list (Scan.pair scanId scanSnapshot)
  let edges ← Scan.list (Scan.pair scanId scanId)
  pure ⟨ExtTreeMap.ofList cells, edges⟩

def ofBytes (bytes : ByteArray) : Except Fault Document := do
  if bytes.size < Header.size then
    throw (.deserialization s!"Data too short: minimum {Header.size} bytes required")
  if bytes.size > maxSize then
    throw (.deserialization
      s!"Data size {bytes.size} bytes exceeds maximum allowed {maxSize} bytes")
  -- Nothing behind the header is looked at unless the header is good.
  let header ← Header.ofBytes bytes
  header.validate
  match scan.run ⟨bytes, Header.size⟩ with
  | .ok (document, _) => pure document
  | .error reason =>
    throw (.deserialization s!"Failed to decode notebook state: {reason.message}")

end Document

end Notebook
