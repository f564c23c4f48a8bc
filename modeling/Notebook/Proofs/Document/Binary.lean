import Notebook.Document.Binary
import Notebook.Proofs.Bytes.Packed
import Notebook.Proofs.CellId
import Notebook.Proofs.Listing

/-!
# A notebook saved in binary form is read back

Each part of a notebook has a packed form and a reader that takes it, and the packed notebook is
made of such parts one behind the other. So the whole is read back, down to the order of the edges
and to the tags that a snapshot lists twice.

> **what is saved is read back**: `Document.ofBytes d.toBytes = .ok d`, unless the file is too
> large, and then it is refused for its size.
-/

set_option autoImplicit false

namespace Notebook

open Std Bytes

namespace Document

/-! ## 1. The parts of a notebook -/

theorem inverts_id : Inverts scanId packId := inverts_named CellId.ofText?_toText

theorem inverts_tags : Inverts scanTags packTags := by
  have htag : Inverts (Scan.named fun name => some ⟨name⟩) fun tag : Tag => packText tag.name :=
    inverts_named fun _ => rfl
  exact htag.list

theorem inverts_snapshot : Inverts scanSnapshot packSnapshot where
  reads s hlength := by
    simp only [packSnapshot, List.length_append, List.append_assoc] at hlength ⊢
    have htext := inverts_text.option
    refine (inverts_id.reads s.cellId (by omega)).bind ?_
    refine (htext.reads s.name (by omega)).bind ?_
    refine (htext.reads s.code (by omega)).bind ?_
    refine (htext.reads s.persistentCode (by omega)).bind ?_
    refine (htext.reads s.executedCode (by omega)).bind ?_
    refine ((inverts_id.pair inverts_tags).list.reads s.inputs.toList (by omega)).bind ?_
    refine (inverts_tags.reads s.outputTags (by omega)).bind ?_
    refine (inverts_bool.reads s.autoUpdate (by omega)).bind ?_
    refine (inverts_bool.reads s.forceCached (by omega)).last ?_
    rw [ofList_toList]
    exact Scan.reads_pure s
  ne_nil s := by
    simp only [packSnapshot, List.append_assoc]
    exact List.append_ne_nil_of_left_ne_nil (inverts_id.ne_nil s.cellId) _

theorem reads_pack (d : Document) (hlength : d.pack.length < 2 ^ 64) : scan.Reads d.pack d := by
  rw [pack, List.length_append] at hlength
  refine ((inverts_id.pair inverts_snapshot).list.reads d.cells.toList (by omega)).bind ?_
  refine ((inverts_id.pair inverts_id).list.reads d.edges (by omega)).last ?_
  rw [ofList_toList]
  exact Scan.reads_pure d

/-! ## 2. The file -/

theorem size_toBytes (d : Document) : d.toBytes.size = Header.size + d.pack.length := by
  show (Header.current.toBytes ++ d.pack).toArray.size = _
  rw [List.size_toArray, List.length_append]
  rfl

/-- The packed notebook begins right behind the header. -/
theorem before_pack (d : Document) : (Cursor.mk d.toBytes Header.size).Before d.pack [] where
  inside := by
    rw [size_toBytes]
    exact Nat.le_add_right _ _
  rest_eq := by
    rw [List.append_nil]
    rfl

theorem header_toBytes (d : Document) : Header.ofBytes d.toBytes = .ok Header.current := by
  have hfront : (d.toBytes.extract 0 Header.size).data.toList = Header.current.toBytes := by
    rw [ByteArray.data_extract, Array.toList_extract]
    rfl
  rw [Header.ofBytes, hfront]
  rfl

/-- **What is saved is read back**, unless it is too large. -/
theorem ofBytes_toBytes (d : Document) :
    ofBytes d.toBytes =
      if d.toBytes.size ≤ maxSize then .ok d
      else .error (.deserialization
        s!"Data size {d.toBytes.size} bytes exceeds maximum allowed {maxSize} bytes") := by
  have hshort : ¬ d.toBytes.size < Header.size := by
    rw [size_toBytes]
    omega
  by_cases hsize : d.toBytes.size ≤ maxSize
  · -- What fits the file is far from the numbers that do not fit 64 bits.
    have hlength : d.pack.length < 2 ^ 64 := by
      rw [size_toBytes, maxSize] at hsize
      omega
    have hscan : scan.run ⟨d.toBytes, Header.size⟩ = .ok (d, _) :=
      d.reads_pack hlength _ _ d.before_pack
    rw [ofBytes, if_neg hshort, if_neg (Nat.not_lt.2 hsize), if_pos hsize, header_toBytes]
    simp only [hscan]
    rfl
  · rw [ofBytes, if_neg hshort, if_pos (Nat.lt_of_not_le hsize), if_neg hsize]
    rfl

end Document

end Notebook
