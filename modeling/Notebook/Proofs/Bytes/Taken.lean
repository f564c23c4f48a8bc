import Notebook.Proofs.Bytes.Packed

/-!
# What a reader has taken

A reader takes more than its writer writes: lengths with superfluous bytes, texts that
name a value in another way. So the bytes behind an answer need not be the packed value.
Two things hold all the same, and they are proved of a reader together, reader by reader
along the form of what is read:

> **what is taken is taken everywhere**: an answer is for a run of bytes, and the reader gives the
> same answer for that run wherever it stands and whatever follows it; **nothing is packed in more
> bytes than it was taken from**.

The first is why a file that is cut off cannot be read as a smaller whole, the second why a file
that can be read can be saved again.
-/

set_option autoImplicit false

namespace Notebook.Bytes

variable {α β : Type}

/-- What is next stays next when more bytes are added behind all of them. -/
theorem Cursor.Before.continued {front : ByteArray} {position : Nat} {bytes rest : List UInt8}
    (h : (Cursor.mk front position).Before bytes rest) (back : ByteArray) :
    (Cursor.mk (front ++ back) position).Before bytes (rest ++ back.data.toList) where
  inside := by
    have hinside : position ≤ front.size := h.inside
    show position ≤ (front ++ back).size
    rw [ByteArray.size_append]
    omega
  rest_eq := by
    have hinside : position ≤ front.data.toList.length := h.inside
    have hrest : front.data.toList.drop position = bytes ++ rest := h.rest_eq
    show (front ++ back).data.toList.drop position = _
    rw [ByteArray.data_append, Array.toList_append, List.drop_append_of_le_length hinside, hrest,
      List.append_assoc]

namespace Scan

/-! ## 1. Readers that answer for a run of bytes -/

/-- Whatever the reader answers inside its bytes, it answers for a run of bytes that begins there,
and the value and the length of the run are related as said. -/
def Takes (scan : Scan α) (related : α → Nat → Prop) : Prop :=
  ∀ c value c', c.position ≤ c.bytes.size → scan c = .ok (value, c') →
    ∃ bytes rest, c.Before bytes rest ∧ scan.Reads bytes value ∧ related value bytes.length

theorem Takes.mono {scan : Scan α} {related related' : α → Nat → Prop} (h : scan.Takes related)
    (himp : ∀ value n, related value n → related' value n) : scan.Takes related' := by
  intro c value c' hinside hread
  obtain ⟨bytes, rest, hbefore, hreads, hrelated⟩ := h c value c' hinside hread
  exact ⟨bytes, rest, hbefore, hreads, himp _ _ hrelated⟩

theorem takes_pure {value : α} {related : α → Nat → Prop} (h : related value 0) :
    (pure value : Scan α).Takes related := by
  intro c value' c' hinside hread
  cases hread
  exact ⟨[], c.rest, ⟨hinside, rfl⟩, reads_pure value, h⟩

theorem takes_fail (reason : Unreadable) (related : α → Nat → Prop) :
    (fail reason : Scan α).Takes related := by
  intro c value c' _ hread
  cases hread

/-- Of two readers one behind the other, the second one begins where the run of the first one
ends. -/
theorem Takes.bind {scan : Scan α} {next : α → Scan β} {first : α → Nat → Prop}
    {related : β → Nat → Prop} (h : scan.Takes first)
    (h' : ∀ value n, first value n → (next value).Takes fun value' m => related value' (n + m)) :
    (scan >>= next).Takes related := by
  intro c value' c' hinside hread
  have hsplit : (scan c >>= fun found => next found.1 found.2) = .ok (value', c') := hread
  cases hfirst : scan c with
  | error reason =>
    rw [hfirst] at hsplit
    cases hsplit
  | ok found =>
    obtain ⟨value, d⟩ := found
    obtain ⟨bytes, rest, hbefore, hreads, hrelated⟩ := h c value d hinside hfirst
    -- The first reader has moved on by its run, and no further.
    have hd : d = c.forward bytes.length := by
      have hsame := hfirst.symm.trans (hreads c rest hbefore)
      cases hsame
      rfl
    have hnext : next value d = .ok (value', c') := by rwa [hfirst] at hsplit
    have hrest : (c.forward bytes.length).rest = rest := by
      rw [Cursor.rest_forward, hbefore.rest_eq, List.drop_left]
    subst hd
    obtain ⟨bytes', rest', hbefore', hreads', hrelated'⟩ :=
      h' value _ hrelated _ value' c' hbefore.fits hnext
    refine ⟨bytes ++ bytes', rest', ⟨hinside, ?_⟩, hreads.bind hreads', ?_⟩
    · rw [hbefore.rest_eq, ← hrest, hbefore'.rest_eq, List.append_assoc]
    · rwa [List.length_append]

theorem takes_byte : byte.Takes fun _ n => n = 1 := by
  intro c b c' hinside hread
  rw [byte, Cursor.next?] at hread
  split at hread
  · rename_i found hfound
    split at hfound
    · rename_i hplace
      cases hfound
      cases hread
      refine ⟨[c.bytes[c.position]], (c.forward 1).rest, ⟨hinside, ?_⟩, reads_byte _, rfl⟩
      exact List.drop_eq_getElem_cons (by simpa using hplace)
    · cases hfound
  · cases hread

theorem takes_take (n : Nat) : (take n).Takes fun bytes m => bytes.size = n ∧ m = n := by
  intro c bytes c' hinside hread
  rw [take, Cursor.take?] at hread
  split at hread
  · rename_i found hfound
    split at hfound
    · rename_i hfits
      cases hfound
      cases hread
      have hsize : (c.bytes.extract c.position (c.position + n)).size = n := by
        rw [ByteArray.size_extract]
        omega
      have hlist : (c.bytes.extract c.position (c.position + n)).data.toList = c.rest.take n := by
        rw [ByteArray.data_extract, Array.toList_extract, List.extract_eq_take_drop,
          Nat.add_sub_cancel_left]
        rfl
      have hreads := reads_take (c.bytes.extract c.position (c.position + n))
      rw [hsize] at hreads
      refine ⟨_, (c.forward n).rest, ⟨hinside, ?_⟩, hreads, hsize, hsize⟩
      rw [hlist, Cursor.rest_forward, List.take_append_drop]
    · cases hfound
  · cases hread

end Scan

/-! ## 2. Lengths -/

/-- A number is packed in as few bytes as have room for it. -/
theorem length_packNat_le_iff {n k : Nat} (hk : 0 < k) : (packNat n).length ≤ k ↔ n < 128 ^ k := by
  induction k generalizing n with
  | zero => exact absurd hk (Nat.lt_irrefl 0)
  | succ k ih =>
    rw [packNat, Nat.pow_succ]
    split
    · rename_i hn
      have hpos : 0 < 128 ^ k := Nat.pow_pos (by decide)
      exact iff_of_true (Nat.le_add_left 1 k) (by omega)
    · rename_i hn
      rw [List.length_cons, Nat.add_le_add_iff_right]
      cases k with
      | zero =>
        have hpos : 0 < (packNat (n / 128)).length := List.length_pos_iff.2 (packNat_ne_nil _)
        exact iff_of_false (by omega) (by omega)
      | succ k => rw [ih (Nat.succ_pos k), Nat.div_lt_iff_lt_mul (by decide)]

theorem length_packNat_mono {m n : Nat} (h : m ≤ n) : (packNat m).length ≤ (packNat n).length := by
  have hpos : 0 < (packNat n).length := List.length_pos_iff.2 (packNat_ne_nil n)
  rw [length_packNat_le_iff hpos]
  exact Nat.lt_of_le_of_lt h ((length_packNat_le_iff hpos).1 (Nat.le_refl _))

namespace Scan

/-- Each byte of a number adds seven bits, superfluous ones too. -/
theorem takes_natFrom (left place sum : Nat) :
    (natFrom left place sum).Takes fun n k => ∃ m, n = sum + m * place ∧ m < 128 ^ k ∧ 0 < k := by
  induction left generalizing place sum with
  | zero => exact takes_fail _ _
  | succ left ih =>
    refine takes_byte.bind fun b k hk => ?_
    subst hk
    have hlow : b.toNat % 128 < 128 := Nat.mod_lt _ (by decide)
    split
    · split
      · exact takes_fail _ _
      · exact takes_pure ⟨b.toNat % 128, rfl, hlow, Nat.one_pos⟩
    · refine (ih (place * 128) (sum + b.toNat % 128 * place)).mono ?_
      rintro n k ⟨m, rfl, hm, -⟩
      refine ⟨b.toNat % 128 + 128 * m, ?_, ?_, by omega⟩
      · rw [Nat.add_mul, Nat.add_assoc]
        congr 2
        ac_rfl
      · rw [Nat.pow_add]
        omega

theorem takes_nat : nat.Takes fun n k => (packNat n).length ≤ k := by
  refine (takes_natFrom 10 1 0).mono ?_
  rintro n k ⟨m, rfl, hm, hk⟩
  rw [length_packNat_le_iff hk]
  omega

end Scan

/-! ## 3. Readers and writers -/

theorem length_packText (s : String) :
    (packText s).length = (packNat s.utf8ByteSize).length + s.utf8ByteSize :=
  List.length_append

theorem length_packText_mono {s t : String} (h : s.utf8ByteSize ≤ t.utf8ByteSize) :
    (packText s).length ≤ (packText t).length := by
  have hlengths := length_packNat_mono h
  rw [length_packText, length_packText]
  omega

/-- The reader answers for a run of bytes, and the writer writes the answer in at most as many. -/
def Compacts (scan : Scan α) (pack : α → List UInt8) : Prop :=
  scan.Takes fun value n => (pack value).length ≤ n

theorem compacts_text : Compacts Scan.text packText := by
  refine Scan.takes_nat.bind fun size k hk => ?_
  refine (Scan.takes_take size).bind fun bytes m hm => ?_
  obtain ⟨hsize, rfl⟩ := hm
  split
  · rename_i s hs
    -- The text has the bytes that were taken.
    have hbytes : s.utf8ByteSize = bytes.size := by
      rw [String.fromUTF8?] at hs
      split at hs
      · cases hs
        rfl
      · cases hs
    refine Scan.takes_pure ?_
    rw [length_packText, hbytes, hsize]
    omega
  · exact Scan.takes_fail _ _

/-- A value that is named by a text may have a shorter name, and not a longer one. -/
theorem compacts_named {decode : String → Option α} {encode : α → String}
    (h : ∀ s value, decode s = some value → (encode value).utf8ByteSize ≤ s.utf8ByteSize) :
    Compacts (Scan.named decode) fun value => packText (encode value) := by
  refine compacts_text.bind fun s n hn => ?_
  split
  · rename_i value hvalue
    exact Scan.takes_pure (Nat.le_trans (length_packText_mono (h s value hvalue)) hn)
  · exact Scan.takes_fail _ _

theorem takes_zeroOrOne (reason : Unreadable) : (Scan.zeroOrOne reason).Takes fun _ n => n = 1 := by
  refine Scan.takes_byte.bind fun b n hn => ?_
  split
  · exact Scan.takes_pure hn
  · split
    · exact Scan.takes_pure hn
    · exact Scan.takes_fail _ _

theorem compacts_bool : Compacts Scan.bool packBool :=
  (takes_zeroOrOne .notBool).mono fun _ _ hn => Nat.le_of_eq hn.symm

theorem Compacts.option {value : Scan α} {pack : α → List UInt8} (h : Compacts value pack) :
    Compacts (Scan.option value) (packOption pack) := by
  refine (takes_zeroOrOne .notOption).bind fun present n hn => ?_
  subst hn
  split
  · refine h.bind fun v m hm => Scan.takes_pure ?_
    rw [packOption, List.length_cons]
    omega
  · exact Scan.takes_pure (Nat.le_refl 1)

theorem Compacts.pair {first : Scan α} {second : Scan β} {pack : α → List UInt8}
    {pack' : β → List UInt8} (h : Compacts first pack) (h' : Compacts second pack') :
    Compacts (Scan.pair first second) (packPair pack pack') := by
  refine h.bind fun a n hn => h'.bind fun b m hm => Scan.takes_pure ?_
  rw [packPair, List.length_append]
  exact Nat.add_le_add hn hm

theorem Compacts.times {item : Scan α} {pack : α → List UInt8} (h : Compacts item pack)
    (length : Nat) :
    (Scan.times item length).Takes fun items n => items.length = length ∧
      (items.flatMap pack).length ≤ n := by
  induction length with
  | zero => exact Scan.takes_pure ⟨rfl, Nat.le_refl 0⟩
  | succ length ih =>
    refine h.bind fun first n hn => ih.bind fun others m hm => Scan.takes_pure ?_
    rw [List.length_cons, hm.1, List.flatMap_cons, List.length_append]
    omega

theorem Compacts.list {item : Scan α} {pack : α → List UInt8} (h : Compacts item pack) :
    Compacts (Scan.list item) (packList pack) := by
  refine Scan.takes_nat.bind fun length n hn => (h.times length).mono ?_
  rintro items m ⟨rfl, hm⟩
  rw [packList, List.length_append]
  omega

end Notebook.Bytes
