import Mathlib.Tactic.Ring
import Notebook.Bytes.Packed

/-!
# Reading back a packed value

A reader does not know where the value it reads ends. So what is proved of a reader is that it
takes exactly the bytes its writer has written, *whatever follows them*:

> **what is packed is read back**, and the place afterwards is the one right behind it.

Lengths are the one thing that may not fit: a number of 64 bits is written in at most ten bytes,
and no more are read. A text and a list are at least as long as their length says, so everything
that is packed in fewer than `2 ^ 64` bytes is read back.
-/

set_option autoImplicit false

namespace Notebook.Bytes

variable {α β : Type}

/-! ## 1. Places -/

namespace Cursor

/-- The place so many bytes further on. -/
def forward (c : Cursor) (n : Nat) : Cursor :=
  { c with position := c.position + n }

/-- The cursor is inside its bytes, and what is left begins with these. -/
structure Before (c : Cursor) (bytes rest : List UInt8) : Prop where
  inside : c.position ≤ c.bytes.size
  rest_eq : c.rest = bytes ++ rest

theorem rest_forward (c : Cursor) (n : Nat) : (c.forward n).rest = c.rest.drop n := by
  rw [rest, rest, List.drop_drop]
  rfl

theorem forward_forward (c : Cursor) (m n : Nat) : (c.forward m).forward n = c.forward (m + n) := by
  simp only [forward, Nat.add_assoc]

theorem Before.fits {c : Cursor} {bytes rest : List UInt8} (h : c.Before bytes rest) :
    c.position + bytes.length ≤ c.bytes.size := by
  have hleft : c.rest.length = c.bytes.size - c.position := by
    rw [Cursor.rest, List.length_drop, Array.length_toList]
    rfl
  rw [h.rest_eq, List.length_append] at hleft
  have hinside := h.inside
  omega

theorem Before.forward {c : Cursor} {bytes bytes' rest : List UInt8}
    (h : c.Before (bytes ++ bytes') rest) : (c.forward bytes.length).Before bytes' rest where
  inside := by
    have hfits := h.fits
    rw [List.length_append] at hfits
    show c.position + bytes.length ≤ c.bytes.size
    omega
  rest_eq := by rw [rest_forward, h.rest_eq, List.append_assoc, List.drop_left]

theorem Before.left {c : Cursor} {bytes bytes' rest : List UInt8}
    (h : c.Before (bytes ++ bytes') rest) : c.Before bytes (bytes' ++ rest) :=
  ⟨h.inside, by rw [h.rest_eq, List.append_assoc]⟩

end Cursor

/-! ## 2. Readers that take what is written -/

namespace Scan

/-- The reader takes these bytes, whatever follows them, and answers the value. -/
def Reads (scan : Scan α) (bytes : List UInt8) (value : α) : Prop :=
  ∀ c rest, c.Before bytes rest → scan c = .ok (value, c.forward bytes.length)

theorem Reads.bind {scan : Scan α} {next : α → Scan β} {bytes bytes' : List UInt8} {value : α}
    {value' : β} (h : scan.Reads bytes value) (h' : (next value).Reads bytes' value') :
    (scan >>= next).Reads (bytes ++ bytes') value' := by
  intro c rest hc
  calc (scan >>= next) c = (scan c >>= fun found => next found.1 found.2) := rfl
    _ = next value (c.forward bytes.length) := by rw [h c _ hc.left]; rfl
    _ = .ok (value', c.forward (bytes ++ bytes').length) := by
      rw [h' _ rest hc.forward, Cursor.forward_forward, List.length_append]

theorem reads_pure (value : α) : (pure value : Scan α).Reads [] value := fun _ _ _ => rfl

theorem Reads.last {scan : Scan α} {next : α → Scan β} {bytes : List UInt8} {value : α} {value' : β}
    (h : scan.Reads bytes value) (h' : (next value).Reads [] value') :
    (scan >>= next).Reads bytes value' := by
  have hboth : (scan >>= next).Reads (bytes ++ []) value' := h.bind h'
  rwa [List.append_nil] at hboth

theorem Reads.map {scan : Scan α} {bytes : List UInt8} {value : α} (h : scan.Reads bytes value)
    (f : α → β) : (scan >>= fun found => pure (f found)).Reads bytes (f value) :=
  h.last (reads_pure (f value))

theorem reads_byte (b : UInt8) : byte.Reads [b] b := by
  intro c rest hc
  have hplace : c.position < c.bytes.size := hc.fits
  have hbyte : c.bytes[c.position] = b := by
    have hfirst : c.rest[0]? = some b := by rw [hc.rest_eq]; rfl
    rw [Cursor.rest, List.getElem?_drop, Array.getElem?_toList] at hfirst
    exact (Array.getElem?_eq_some_iff.1 hfirst).2
  rw [byte, Cursor.next?, dif_pos hplace, hbyte]
  rfl

theorem reads_take (bytes : ByteArray) : (take bytes.size).Reads bytes.data.toList bytes := by
  intro c rest hc
  have hfits : c.position + bytes.size ≤ c.bytes.size := hc.fits
  have hbytes : c.bytes.extract c.position (c.position + bytes.size) = bytes := by
    apply ByteArray.ext
    apply Array.toList_inj.1
    have hlength : bytes.size = bytes.data.toList.length := rfl
    rw [ByteArray.data_extract, Array.toList_extract, List.extract_eq_take_drop,
      Nat.add_sub_cancel_left]
    show c.rest.take bytes.size = _
    rw [hc.rest_eq, hlength, List.take_left]
  rw [take, Cursor.take?, if_pos hfits, hbytes]
  rfl

/-! ## 3. Lengths -/

/-- A number is read back if its last byte is not beyond the reach of the reader. -/
theorem reads_natFrom {left n : Nat} (h : n < 2 * 128 ^ left) (place sum : Nat) :
    (natFrom (left + 1) place sum).Reads (packNat n) (sum + n * place) := by
  have hlow : ∀ m, m < 256 → (UInt8.ofNat m).toNat = m := fun m hm => UInt8.toNat_ofNat_of_lt hm
  induction left generalizing n place sum with
  | zero =>
    -- In the last byte the reader takes nothing but 0 and 1.
    have hn : n < 2 := by omega
    rw [packNat, if_pos (by omega)]
    refine (reads_byte (UInt8.ofNat n)).last ?_
    rw [hlow n (by omega), if_pos (by omega), if_neg (by omega), Nat.mod_eq_of_lt (by omega)]
    exact reads_pure _
  | succ left ih =>
    have hpow : 2 * 128 ^ (left + 1) = 128 * (2 * 128 ^ left) := by rw [Nat.pow_succ]; ac_rfl
    rw [packNat]
    split
    · rename_i hn
      refine (reads_byte (UInt8.ofNat n)).last ?_
      rw [hlow n (by omega), if_pos hn, if_neg (by omega), Nat.mod_eq_of_lt hn]
      exact reads_pure _
    · -- The high bit is set, and the rest of the number counts 128 times as much.
      refine (reads_byte (UInt8.ofNat (n % 128 + 128))).bind ?_
      rw [hlow (n % 128 + 128) (by omega), if_neg (by omega), Nat.add_mod_right, Nat.mod_mod]
      have hvalue : sum + n % 128 * place + n / 128 * (place * 128) = sum + n * place := by
        calc sum + n % 128 * place + n / 128 * (place * 128)
          _ = sum + (128 * (n / 128) + n % 128) * place := by ring
          _ = sum + n * place := by rw [Nat.div_add_mod]
      rw [← hvalue]
      exact ih (by omega) (place * 128) (sum + n % 128 * place)

theorem reads_nat {n : Nat} (h : n < 2 ^ 64) : nat.Reads (packNat n) n := by
  have hread : (natFrom 10 1 0).Reads (packNat n) (0 + n * 1) := reads_natFrom (by omega) 1 0
  rwa [Nat.mul_one, Nat.zero_add] at hread

end Scan

/-! ## 4. Readers and writers -/

theorem packNat_ne_nil (n : Nat) : packNat n ≠ [] := by
  rw [packNat]
  split <;> exact List.cons_ne_nil _ _

/-- The reader takes whatever the writer writes in fewer than `2 ^ 64` bytes. The writer writes at
least one byte, so a list has no more items than bytes. -/
structure Inverts (scan : Scan α) (pack : α → List UInt8) : Prop where
  reads : ∀ value, (pack value).length < 2 ^ 64 → scan.Reads (pack value) value
  ne_nil : ∀ value, pack value ≠ []

theorem inverts_text : Inverts Scan.text packText where
  reads s h := by
    have hsize : s.toByteArray.data.toList.length = s.utf8ByteSize := rfl
    rw [packText, List.length_append, hsize] at h
    -- The bytes of a text are UTF-8, so the reader does not refuse them.
    have hutf8 : String.fromUTF8? s.toByteArray = some s := dif_pos s.isValidUTF8
    refine (Scan.reads_nat (by omega)).bind ?_
    refine (Scan.reads_take s.toByteArray).last ?_
    rw [hutf8]
    exact Scan.reads_pure s
  ne_nil s := List.append_ne_nil_of_left_ne_nil (packNat_ne_nil _) _

theorem inverts_named {decode : String → Option α} {encode : α → String}
    (h : ∀ value, decode (encode value) = some value) :
    Inverts (Scan.named decode) fun value => packText (encode value) where
  reads value hlength := by
    refine (inverts_text.reads (encode value) hlength).last ?_
    rw [h]
    exact Scan.reads_pure value
  ne_nil value := inverts_text.ne_nil _

theorem reads_zeroOrOne (b : Bool) (reason : Unreadable) :
    (Scan.zeroOrOne reason).Reads (packBool b) b := by
  refine (Scan.reads_byte _).last ?_
  cases b <;> exact Scan.reads_pure _

theorem inverts_bool : Inverts Scan.bool packBool where
  reads b _ := reads_zeroOrOne b .notBool
  ne_nil _ := List.cons_ne_nil _ _

theorem Inverts.option {value : Scan α} {pack : α → List UInt8} (h : Inverts value pack) :
    Inverts (Scan.option value) (packOption pack) where
  reads v hlength := by
    cases v with
    | none => exact (reads_zeroOrOne false .notOption).last (Scan.reads_pure none)
    | some v =>
      rw [packOption, List.length_cons] at hlength
      exact (reads_zeroOrOne true .notOption).bind ((h.reads v (by omega)).map some)
  ne_nil v := by cases v <;> exact List.cons_ne_nil _ _

theorem Inverts.pair {first : Scan α} {second : Scan β} {pack : α → List UInt8}
    {pack' : β → List UInt8} (h : Inverts first pack) (h' : Inverts second pack') :
    Inverts (Scan.pair first second) (packPair pack pack') where
  reads p hlength := by
    rw [packPair, List.length_append] at hlength
    exact (h.reads p.1 (by omega)).bind ((h'.reads p.2 (by omega)).map (Prod.mk p.1))
  ne_nil p := List.append_ne_nil_of_left_ne_nil (h.ne_nil p.1) _

theorem Inverts.length_le {item : Scan α} {pack : α → List UInt8} (h : Inverts item pack)
    (items : List α) : items.length ≤ (items.flatMap pack).length := by
  induction items with
  | nil => exact Nat.le_refl 0
  | cons first items ih =>
    have hfirst : 0 < (pack first).length := List.length_pos_iff.2 (h.ne_nil first)
    rw [List.flatMap_cons, List.length_append, List.length_cons]
    omega

theorem Inverts.times {item : Scan α} {pack : α → List UInt8} (h : Inverts item pack)
    (items : List α) (hlength : (items.flatMap pack).length < 2 ^ 64) :
    (Scan.times item items.length).Reads (items.flatMap pack) items := by
  induction items with
  | nil => exact Scan.reads_pure []
  | cons first items ih =>
    rw [List.flatMap_cons, List.length_append] at hlength
    exact (h.reads first (by omega)).bind ((ih (by omega)).map (List.cons first))

theorem Inverts.list {item : Scan α} {pack : α → List UInt8} (h : Inverts item pack) :
    Inverts (Scan.list item) (packList pack) where
  reads items hlength := by
    have hcount := h.length_le items
    rw [packList, List.length_append] at hlength
    exact (Scan.reads_nat (by omega)).bind (h.times items (by omega))
  ne_nil items := List.append_ne_nil_of_left_ne_nil (packNat_ne_nil _) _

end Notebook.Bytes
