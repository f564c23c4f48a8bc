import Mathlib.Data.List.Flatten
import Notebook.Proofs.Bytes.Taken
import Notebook.Proofs.Document.Binary

/-!
# Files that are not as they were saved

A file may be cut off, something may stand behind it, and another program may have written
it. The format has no checksum and does not say how long the whole is, so all of this
depends on what the readers take.

> **a saved file that is cut off is refused**, wherever that is, and what stands behind a
> saved file is not looked at; **a file that can be read can be saved**, in no more bytes than
> it has, and is read again.

Cut off and whole file begin alike. If the first could be read, the same bytes would be all that
is read of the second, and they are too few. Saving shortens lengths with superfluous bytes,
identities with leading zeros and tables that name a cell twice, and it drops what stands behind.
Nothing gets longer, so the limit of the size is kept.
-/

set_option autoImplicit false

namespace Notebook

open Std Bytes

/-! ## 1. The parts of a notebook -/

namespace Bytes

/-- Of a table that was listed with repetitions less is packed than was listed. -/
theorem length_packList_toList_ofList {α β : Type} (cmp : α → α → Ordering) [TransCmp cmp]
    [LawfulEqCmp cmp] (pack : α × β → List UInt8) (items : List (α × β)) :
    (packList pack (ExtTreeMap.ofList items cmp).toList).length ≤ (packList pack items).length := by
  have hfewer : (ExtTreeMap.ofList items cmp).toList.Subperm items := subperm_toList_ofList items
  have hcount := length_packNat_mono hfewer.length_le
  have hitems : ((ExtTreeMap.ofList items cmp).toList.flatMap pack).length ≤
      (items.flatMap pack).length := by
    obtain ⟨listed, hperm, hsublist⟩ := hfewer
    rw [← (hperm.flatMap_right pack).length_eq]
    exact (hsublist.flatMap pack).length_le
  rw [packList, packList, List.length_append, List.length_append]
  exact Nat.add_le_add hcount hitems

end Bytes

namespace Document

theorem compacts_id : Compacts scanId packId :=
  compacts_named fun _ _ => CellId.utf8ByteSize_toText_le

theorem compacts_tags : Compacts scanTags packTags := by
  have htag : Compacts (Scan.named fun name => some ⟨name⟩) fun tag : Tag => packText tag.name := by
    refine compacts_named fun s tag hs => ?_
    cases hs
    exact Nat.le_refl _
  exact htag.list

theorem compacts_snapshot : Compacts scanSnapshot packSnapshot := by
  have htext := compacts_text.option
  refine compacts_id.bind fun cellId n hid => ?_
  refine htext.bind fun name n₁ hname => ?_
  refine htext.bind fun code n₂ hcode => ?_
  refine htext.bind fun persistentCode n₃ hpersistent => ?_
  refine htext.bind fun executedCode n₄ hexecuted => ?_
  refine (compacts_id.pair compacts_tags).list.bind fun inputs n₅ hinputs => ?_
  refine compacts_tags.bind fun outputTags n₆ htags => ?_
  refine compacts_bool.bind fun autoUpdate n₇ hauto => ?_
  refine compacts_bool.bind fun forceCached n₈ hforce => ?_
  have hmerged := length_packList_toList_ofList compare (packPair packId packTags) inputs
  refine Scan.takes_pure ?_
  simp only [packSnapshot, List.length_append]
  omega

theorem compacts_scan : Compacts scan pack := by
  refine (compacts_id.pair compacts_snapshot).list.bind fun cells n hcells => ?_
  refine (compacts_id.pair compacts_id).list.bind fun edges m hedges => ?_
  have hmerged := length_packList_toList_ofList compare (packPair packId packSnapshot) cells
  refine Scan.takes_pure ?_
  simp only [pack, List.length_append]
  omega

/-! ## 2. The checks in front -/

end Document

theorem Header.ofBytes_append {front : ByteArray} (h : size ≤ front.size) (back : ByteArray) :
    ofBytes (front ++ back) = ofBytes front := by
  have hfront : (front ++ back).extract 0 size = front.extract 0 size := by
    rw [ByteArray.extract_append, Nat.sub_eq_zero_of_le h, Nat.zero_sub]
    simp
  rw [ofBytes, ofBytes, hfront]

namespace Document

section

variable {bytes : ByteArray} (hlow : Header.size ≤ bytes.size) (hhigh : bytes.size ≤ maxSize)
  (hheader : Header.ofBytes bytes = .ok Header.current)

include hlow hhigh hheader

theorem ofBytes_of_scan_eq_ok {d : Document} {c : Cursor}
    (hscan : scan ⟨bytes, Header.size⟩ = .ok (d, c)) : ofBytes bytes = .ok d := by
  have hrun : scan.run ⟨bytes, Header.size⟩ = .ok (d, c) := hscan
  rw [ofBytes, if_neg (Nat.not_lt.2 hlow), if_neg (Nat.not_lt.2 hhigh), hheader]
  simp only [hrun]
  rfl

theorem ofBytes_of_scan_eq_error {reason : Unreadable}
    (hscan : scan ⟨bytes, Header.size⟩ = .error reason) :
    ofBytes bytes =
      .error (.deserialization s!"Failed to decode notebook state: {reason.message}") := by
  have hrun : scan.run ⟨bytes, Header.size⟩ = .error reason := hscan
  rw [ofBytes, if_neg (Nat.not_lt.2 hlow), if_neg (Nat.not_lt.2 hhigh), hheader]
  simp only [hrun]
  rfl

end

/-- Whatever can be read is within the limits of the size, and its payload can be read. -/
theorem scan_of_ofBytes_eq_ok {bytes : ByteArray} {d : Document} (h : ofBytes bytes = .ok d) :
    Header.size ≤ bytes.size ∧ bytes.size ≤ maxSize ∧
      ∃ c, scan ⟨bytes, Header.size⟩ = .ok (d, c) := by
  by_cases hlow : bytes.size < Header.size
  · rw [ofBytes, if_pos hlow] at h
    cases h
  by_cases hhigh : maxSize < bytes.size
  · rw [ofBytes, if_neg hlow, if_pos hhigh] at h
    cases h
  refine ⟨Nat.not_lt.1 hlow, Nat.not_lt.1 hhigh, ?_⟩
  rw [ofBytes, if_neg hlow, if_neg hhigh] at h
  cases hheader : Header.ofBytes bytes with
  | error fault =>
    rw [hheader] at h
    cases h
  | ok header =>
    cases hvalid : header.validate with
    | error fault =>
      simp only [hheader, hvalid, bind, Except.bind] at h
      cases h
    | ok known =>
      cases hscan : scan.run ⟨bytes, Header.size⟩ with
      | error reason =>
        simp only [hheader, hvalid, hscan, bind, Except.bind] at h
        cases h
      | ok found =>
        simp only [hheader, hvalid, hscan, bind, Except.bind, pure, Except.pure] at h
        cases h
        exact ⟨found.2, hscan⟩

/-! ## 3. What stands behind a saved file, and where it is cut off -/

/-- What stands behind a saved file is not looked at. -/
theorem ofBytes_continued {d : Document} {tail : ByteArray}
    (hsize : (d.toBytes ++ tail).size ≤ maxSize) : ofBytes (d.toBytes ++ tail) = .ok d := by
  have hwhole := d.size_toBytes
  rw [ByteArray.size_append] at hsize
  have hlow : Header.size ≤ d.toBytes.size := by omega
  have hlength : d.pack.length < 2 ^ 64 := by
    rw [maxSize] at hsize
    omega
  have hheader : Header.ofBytes (d.toBytes ++ tail) = .ok Header.current := by
    rw [Header.ofBytes_append hlow, header_toBytes]
  have hscan := d.reads_pack hlength _ _ (d.before_pack.continued tail)
  refine ofBytes_of_scan_eq_ok ?_ ?_ hheader hscan
  all_goals rw [ByteArray.size_append]; omega

/-- A saved notebook cannot be read from less than the whole of it. -/
theorem exists_scan_eq_error {d : Document} {front back : ByteArray}
    (hcut : front ++ back = d.toBytes) (hback : back.size ≠ 0) (hlow : Header.size ≤ front.size)
    (hlength : d.pack.length < 2 ^ 64) : ∃ reason, scan ⟨front, Header.size⟩ = .error reason := by
  cases hscan : scan ⟨front, Header.size⟩ with
  | error reason => exact ⟨reason, rfl⟩
  | ok found =>
    obtain ⟨other, c⟩ := found
    obtain ⟨bytes, rest, hbefore, hreads, -⟩ := compacts_scan _ other c hlow hscan
    have hfront := hbefore.fits
    -- The whole file begins with the bytes that were taken, so no more are taken of it.
    have hwhole : (Cursor.mk d.toBytes Header.size).Before bytes (rest ++ back.data.toList) :=
      hcut ▸ hbefore.continued back
    have hsame := (hreads _ _ hwhole).symm.trans (d.reads_pack hlength _ _ d.before_pack)
    have htaken : Header.size + bytes.length = Header.size + d.pack.length := by
      injection hsame with hsame
      injection hsame with _ hplace
      exact congrArg Cursor.position hplace
    have htotal : front.size + back.size = Header.size + d.pack.length := by
      rw [← ByteArray.size_append, hcut, size_toBytes]
    have hfits : Header.size + bytes.length ≤ front.size := hfront
    omega

theorem ofBytes_front {d : Document} {front back : ByteArray} (hcut : front ++ back = d.toBytes)
    (hback : back.size ≠ 0) (hsize : d.toBytes.size ≤ maxSize) :
    ∃ detail, ofBytes front = .error (.deserialization detail) := by
  have htotal : front.size + back.size = d.toBytes.size := by rw [← ByteArray.size_append, hcut]
  by_cases hlow : front.size < Header.size
  · rw [ofBytes, if_pos hlow]
    exact ⟨_, rfl⟩
  · have hlow' := Nat.not_lt.1 hlow
    have hlength : d.pack.length < 2 ^ 64 := by
      rw [size_toBytes, maxSize] at hsize
      omega
    have hheader : Header.ofBytes front = .ok Header.current := by
      rw [← Header.ofBytes_append hlow' back, hcut, header_toBytes]
    obtain ⟨reason, hscan⟩ := exists_scan_eq_error hcut hback hlow' hlength
    exact ⟨_, ofBytes_of_scan_eq_error hlow' (by omega) hheader hscan⟩

/-- **A saved file that is cut off is refused, and what stands behind it does not matter.** -/
theorem truncation_detected {d : Document} (hsize : d.toBytes.size ≤ maxSize) :
    (∀ front back : ByteArray, front ++ back = d.toBytes → back.size ≠ 0 →
      ∃ detail, ofBytes front = .error (.deserialization detail)) ∧
    ∀ tail : ByteArray, (d.toBytes ++ tail).size ≤ maxSize → ofBytes (d.toBytes ++ tail) = .ok d :=
  ⟨fun _ _ hcut hback => ofBytes_front hcut hback hsize, fun _ => ofBytes_continued⟩

/-- A notebook with one cell, which reads itself and lists a tag twice. -/
def narcissus : Document where
  cells := (∅ : ExtTreeMap CellId Snapshot).insert ⟨10⟩
    { cellId := ⟨12⟩
      name := none
      code := some "é"
      persistentCode := none
      executedCode := none
      inputs := (∅ : ExtTreeMap CellId (List Tag)).insert ⟨10⟩ [⟨"x"⟩, ⟨"x"⟩]
      outputTags := [⟨"x"⟩]
      forceCached := true }
  edges := [(⟨10⟩, ⟨10⟩)]

/-- Without its last byte the file is refused, and with one more byte it is read. -/
theorem narcissus_truncation_detected :
    narcissus.toBytes.size ≤ maxSize ∧
    (∃ detail, ofBytes (narcissus.toBytes.extract 0 34) = .error (.deserialization detail)) ∧
    ofBytes (narcissus.toBytes ++ ⟨#[0xFF]⟩) = .ok narcissus := by
  have hsize : narcissus.toBytes.size ≤ maxSize := by decide +kernel
  obtain ⟨hcut, hcontinued⟩ := truncation_detected hsize
  have hsplit : narcissus.toBytes.extract 0 34 ++ narcissus.toBytes.extract 34 35 =
      narcissus.toBytes := by
    decide +kernel
  exact ⟨hsize, hcut _ _ hsplit (by decide +kernel), hcontinued _ (by decide +kernel)⟩

/-! ## 4. Files that were written in another way -/

/-- **A file that can be read can be saved**, in no more bytes than it has, and is read again. -/
theorem saved_again {bytes : ByteArray} {d : Document} (h : ofBytes bytes = .ok d) :
    d.toBytes.size ≤ bytes.size ∧ ofBytes d.toBytes = .ok d := by
  obtain ⟨hlow, hhigh, c, hscan⟩ := scan_of_ofBytes_eq_ok h
  obtain ⟨taken, rest, hbefore, -, hpacked⟩ := compacts_scan _ d c hlow hscan
  have hsize : d.toBytes.size ≤ bytes.size := by
    calc d.toBytes.size = Header.size + d.pack.length := d.size_toBytes
      _ ≤ Header.size + taken.length := Nat.add_le_add_left hpacked _
      _ ≤ bytes.size := hbefore.fits
  have hread : ofBytes (d.toBytes ++ ByteArray.empty) = .ok d := by
    refine ofBytes_continued ?_
    rw [ByteArray.append_empty]
    exact Nat.le_trans hsize hhigh
  rw [ByteArray.append_empty] at hread
  exact ⟨hsize, hread⟩

/-- The same notebook as another program may write it: the number of cells has a
superfluous byte, the cell comes twice, identities have leading zeros and capitals, and
something stands behind the edges. -/
def narcissusOtherwise : ByteArray :=
  ⟨#[0x44, 0x46, 0x4E, 0x42, 0x01, 0x82, 0x00,
    0x01, 0x41, 0x01, 0x62, 0x00, 0x00, 0x00, 0x00, 0x00, 0x00, 0x00, 0x00,
    0x02, 0x30, 0x61, 0x01, 0x43, 0x00, 0x01, 0x02, 0xC3, 0xA9, 0x00, 0x00,
    0x01, 0x02, 0x30, 0x41, 0x02, 0x01, 0x78, 0x01, 0x78, 0x01, 0x01, 0x78, 0x00, 0x01,
    0x01, 0x02, 0x30, 0x61, 0x01, 0x41, 0xFF]⟩

theorem narcissus_saved_again :
    ofBytes narcissusOtherwise = .ok narcissus ∧ narcissus.toBytes ≠ narcissusOtherwise ∧
    narcissus.toBytes.size ≤ narcissusOtherwise.size ∧
    ofBytes narcissus.toBytes = .ok narcissus := by
  have hfound : (ofBytes narcissusOtherwise).toOption = some narcissus := by decide +kernel
  have hread : ofBytes narcissusOtherwise = .ok narcissus := by
    cases hresult : ofBytes narcissusOtherwise with
    | error fault =>
      rw [hresult] at hfound
      cases hfound
    | ok d =>
      rw [hresult] at hfound
      exact congrArg Except.ok (Option.some.inj hfound)
  obtain ⟨hsize, hagain⟩ := saved_again hread
  exact ⟨hread, by decide +kernel, hsize, hagain⟩

end Document

end Notebook
