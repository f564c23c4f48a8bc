import Mathlib.Data.Bool.AllAny
import Mathlib.Data.List.Induction
import Mathlib.Data.Nat.Digits.Defs
import Mathlib.Data.String.Basic
import Notebook.Fault

/-!
# The text of an identity

An identity is written in hexadecimal digits, the highest first. Reading goes through the
digits in the same order and keeps the number read so far, so what it has in the end is
the number that was written.

An identity may be written in other ways too, with leading zeros or in capitals. What
is read of a text is the number that its digits denote, each by its place, and how long
the text is does not matter:

> **a text is read** if it is a run of digits, one at least, for a number that fits the word, and
> **it is written again** in lower case and without leading zeros.

So every identity has one text of its own, and none of its other texts is shorter.
-/

set_option autoImplicit false

namespace Notebook

namespace Text

/-! ## 1. Digits -/

/-- The digits in lower case, each in the place of its value. -/
def lowerDigits : List Char :=
  ['0', '1', '2', '3', '4', '5', '6', '7', '8', '9', 'a', 'b', 'c', 'd', 'e', 'f']

/-- The digits of either case. -/
def hexDigits : List Char :=
  lowerDigits ++ ['A', 'B', 'C', 'D', 'E', 'F']

/-- The value of a digit of either case. -/
def hexValue (c : Char) : Nat :=
  lowerDigits.idxOf c.toLower

theorem hexDigit?_eq (c : Char) :
    hexDigit? c = if c ∈ hexDigits then some (hexValue c) else none := by
  have hascii : ∀ n < 128, hexDigit? (Char.ofNat n) =
      if Char.ofNat n ∈ hexDigits then some (hexValue (Char.ofNat n)) else none := by decide
  have hdigits : ∀ d ∈ hexDigits, d.toNat < 128 := List.all_iff_forall_prop.1 (by decide)
  by_cases hc : c.toNat < 128
  · have h := hascii c.toNat hc
    rwa [Char.ofNat_toNat] at h
  · have hbelow : ∀ d : Char, d.toNat < 128 → ¬ c ≤ d := by
      intro d hd hle
      have hle : c.toNat ≤ d.toNat := hle
      omega
    rw [if_neg fun hmem => hc (hdigits c hmem), hexDigit?,
      if_neg fun h => hbelow '9' (by decide) h.2,
      if_neg fun h => hbelow 'f' (by decide) h.2, if_neg fun h => hbelow 'F' (by decide) h.2]

theorem hexDigit?_eq_some_iff {c : Char} {d : Nat} :
    hexDigit? c = some d ↔ c ∈ hexDigits ∧ hexValue c = d := by
  rw [hexDigit?_eq]
  split
  · rename_i hc
    simp [hc]
  · rename_i hc
    simp [hc]

theorem hexDigit?_digitChar {d : Nat} (h : d < 16) : hexDigit? d.digitChar = some d := by
  revert d
  decide

theorem hexDigit?_lt {c : Char} {d : Nat} (h : hexDigit? c = some d) : d < 16 := by
  have hdigits : ∀ c ∈ hexDigits, hexValue c < 16 := List.all_iff_forall_prop.1 (by decide)
  obtain ⟨hc, rfl⟩ := hexDigit?_eq_some_iff.1 h
  exact hdigits c hc

/-- A value is written as the digit that it was read of, in lower case. -/
theorem digitChar_of_hexDigit? {c : Char} {d : Nat} (h : hexDigit? c = some d) :
    d.digitChar = c.toLower := by
  have hdigits : ∀ c ∈ hexDigits, (hexValue c).digitChar = c.toLower :=
    List.all_iff_forall_prop.1 (by decide)
  obtain ⟨hc, rfl⟩ := hexDigit?_eq_some_iff.1 h
  exact hdigits c hc

theorem pos_of_hexDigit? {c : Char} {d : Nat} (h : hexDigit? c = some d) (hzero : c ≠ '0') :
    0 < d := by
  have hdigits : ∀ c ∈ hexDigits, c ≠ '0' → 0 < hexValue c := List.all_iff_forall_prop.1 (by decide)
  obtain ⟨hc, rfl⟩ := hexDigit?_eq_some_iff.1 h
  exact hdigits c hc hzero

/-! ## 2. Numerals -/

/-- The number that a run of digits denotes, each digit by its value and its place. -/
def hexNumber (cs : List Char) : Nat :=
  Nat.ofDigits 16 (cs.reverse.map hexValue)

theorem hexNumber_concat (cs : List Char) (c : Char) :
    hexNumber (cs ++ [c]) = 16 * hexNumber cs + hexValue c := by
  rw [hexNumber, List.reverse_append, List.reverse_singleton, List.singleton_append, List.map_cons,
    Nat.ofDigits_cons, Nat.add_comm]
  rfl

theorem hexNumeral?_concat (acc : Nat) (cs : List Char) (c : Char) :
    hexNumeral? acc (cs ++ [c]) =
      (hexNumeral? acc cs).bind fun n => (hexDigit? c).map fun d => 16 * n + d := by
  induction cs generalizing acc with
  | nil =>
    show (hexDigit? c).bind (fun d => some (16 * acc + d)) = (hexDigit? c).map fun d => 16 * acc + d
    cases hexDigit? c <;> rfl
  | cons first cs ih =>
    show (hexDigit? first).bind (fun d => hexNumeral? (16 * acc + d) (cs ++ [c])) =
      ((hexDigit? first).bind fun d => hexNumeral? (16 * acc + d) cs).bind _
    rw [Option.bind_assoc]
    congr 1
    funext d
    exact ih _

/-- **What is read of a run of digits is the number that it denotes.** -/
theorem hexNumeral?_eq_some_iff {cs : List Char} {n : Nat} :
    hexNumeral? 0 cs = some n ↔ cs ⊆ hexDigits ∧ hexNumber cs = n := by
  induction cs using List.reverseRecOn generalizing n with
  | nil => simp [hexNumeral?, hexNumber]
  | append_singleton cs c ih =>
    simp only [hexNumeral?_concat, Option.bind_eq_some_iff, ih, Option.map_eq_some_iff,
      hexDigit?_eq_some_iff,
      hexNumber_concat, List.append_subset, List.cons_subset, List.nil_subset, and_true]
    constructor
    · rintro ⟨_, ⟨hcs, rfl⟩, _, ⟨hc, rfl⟩, rfl⟩
      exact ⟨⟨hcs, hc⟩, rfl⟩
    · rintro ⟨⟨hcs, hc⟩, rfl⟩
      exact ⟨_, ⟨hcs, rfl⟩, _, ⟨hc, rfl⟩, rfl⟩

/-- The digits of a number denote it. -/
theorem hexNumeral?_toDigits (n : Nat) : hexNumeral? 0 (Nat.toDigits 16 n) = some n := by
  induction n using Nat.strongRecOn with
  | ind n ih =>
    by_cases hn : n < 16
    · rw [Nat.toDigits_of_lt_base hn]
      show (hexDigit? n.digitChar).bind _ = _
      rw [hexDigit?_digitChar hn]
      exact congrArg some (by omega)
    · rw [Nat.toDigits_of_base_le (by decide) (by omega), hexNumeral?_concat,
        ih (n / 16) (by omega), hexDigit?_digitChar (Nat.mod_lt n (by decide))]
      exact congrArg some (Nat.div_add_mod n 16)

/-- So many digits denote a number below that power of 16. -/
theorem hexNumeral?_lt {acc n : Nat} {cs : List Char} (h : hexNumeral? acc cs = some n) :
    n < (acc + 1) * 16 ^ cs.length := by
  induction cs generalizing acc with
  | nil =>
    cases h
    exact Nat.lt_of_lt_of_eq (Nat.lt_succ_self n) (Nat.mul_one (n + 1)).symm
  | cons c cs ih =>
    obtain ⟨d, hd, hrest⟩ := Option.bind_eq_some_iff.1 h
    have hlow := hexDigit?_lt hd
    calc n < (16 * acc + d + 1) * 16 ^ cs.length := ih hrest
      _ ≤ ((acc + 1) * 16) * 16 ^ cs.length := Nat.mul_le_mul_right _ (by omega)
      _ = (acc + 1) * 16 ^ (cs.length + 1) := by rw [Nat.pow_succ', Nat.mul_assoc]

/-! ## 3. The digits of a number -/

/-- In lower case and without leading zeros. Of nothing but zeros one is left. -/
def canonicalDigits (cs : List Char) : List Char :=
  match cs.dropWhile fun c => c = '0' with
  | [] => ['0']
  | rest => rest.map Char.toLower

theorem canonicalDigits_zero_cons (cs : List Char) :
    canonicalDigits ('0' :: cs) = canonicalDigits cs := by
  rw [canonicalDigits, List.dropWhile_cons, if_pos (decide_eq_true rfl), canonicalDigits]

theorem canonicalDigits_cons_of_ne {c : Char} (h : c ≠ '0') (cs : List Char) :
    canonicalDigits (c :: cs) = c.toLower :: cs.map Char.toLower := by
  rw [canonicalDigits, List.dropWhile_cons, decide_eq_false h, if_neg Bool.false_ne_true]
  rfl

/-- Digits behind a number that is not zero are the last digits of the number that is read with
them. -/
theorem toDigits_append_of_hexNumeral? {acc n : Nat} {cs : List Char} (hacc : 0 < acc)
    (h : hexNumeral? acc cs = some n) :
    Nat.toDigits 16 acc ++ cs.map Char.toLower = Nat.toDigits 16 n := by
  induction cs generalizing acc with
  | nil =>
    cases h
    exact List.append_nil _
  | cons c cs ih =>
    obtain ⟨d, hd, hrest⟩ := Option.bind_eq_some_iff.1 h
    have hlow := hexDigit?_lt hd
    rw [← ih (by omega) hrest, ← Nat.toDigits_append_toDigits (by decide) hacc hlow,
      Nat.toDigits_of_lt_base hlow, digitChar_of_hexDigit? hd, List.append_assoc]
    rfl

/-- **The digits of a number are those that it was read of**, in lower case and without leading
zeros. -/
theorem toDigits_of_hexNumeral? {n : Nat} {cs : List Char} (h : hexNumeral? 0 cs = some n) :
    Nat.toDigits 16 n = canonicalDigits cs := by
  induction cs with
  | nil =>
    cases h
    rfl
  | cons c cs ih =>
    obtain ⟨d, hd, hrest⟩ := Option.bind_eq_some_iff.1 h
    rw [Nat.mul_zero, Nat.zero_add] at hrest
    by_cases hc : c = '0'
    · subst hc
      cases hd
      rw [canonicalDigits_zero_cons, ih hrest]
    · rw [← toDigits_append_of_hexNumeral? (pos_of_hexDigit? hd hc) hrest,
        Nat.toDigits_of_lt_base (hexDigit?_lt hd),
        digitChar_of_hexDigit? hd, canonicalDigits_cons_of_ne hc]
      rfl

/-- Digits as they are written: in lower case, and with a zero in front only if it stands alone. -/
structure Written (cs : List Char) : Prop where
  ne_nil : cs ≠ []
  lower : cs ⊆ lowerDigits
  leading : cs.head? = some '0' ↔ cs = ['0']

theorem written_canonicalDigits {cs : List Char} (h : cs ⊆ hexDigits) :
    Written (canonicalDigits cs) := by
  have hlower : ∀ c ∈ hexDigits, c.toLower ∈ lowerDigits := List.all_iff_forall_prop.1 (by decide)
  have hnonzero : ∀ c ∈ hexDigits, c ≠ '0' → c.toLower ≠ '0' :=
    List.all_iff_forall_prop.1 (by decide)
  induction cs with
  | nil => exact ⟨by decide, by decide, by decide⟩
  | cons c cs ih =>
    by_cases hc : c = '0'
    · subst hc
      rw [canonicalDigits_zero_cons]
      exact ih (List.cons_subset.1 h).2
    · have hfirst := hnonzero c (List.cons_subset.1 h).1 hc
      rw [canonicalDigits_cons_of_ne hc, ← List.map_cons]
      constructor
      · simp
      · intro d hd
        obtain ⟨e, he, rfl⟩ := List.mem_map.1 hd
        exact hlower e (h he)
      · simp [hfirst]

theorem written_toDigits (n : Nat) : Written (Nat.toDigits 16 n) := by
  have hread := hexNumeral?_toDigits n
  rw [toDigits_of_hexNumeral? hread]
  exact written_canonicalDigits (hexNumeral?_eq_some_iff.1 hread).1

/-- The digits of a number are ASCII. -/
theorem utf8Size_of_mem_toDigits {n : Nat} {c : Char} (h : c ∈ Nat.toDigits 16 n) :
    c.utf8Size = 1 := by
  have hdigits : ∀ c ∈ lowerDigits, c.utf8Size = 1 := List.all_iff_forall_prop.1 (by decide)
  exact hdigits c ((written_toDigits n).lower h)

/-- A text has at least as many bytes as characters. -/
theorem length_le_utf8Len (cs : List Char) : cs.length ≤ String.utf8Len cs := by
  induction cs with
  | nil => exact Nat.le_refl 0
  | cons c cs ih =>
    have hpos := c.utf8Size_pos
    rw [List.length_cons, String.utf8Len_cons]
    omega

theorem utf8Len_of_ascii {cs : List Char} (h : ∀ c ∈ cs, c.utf8Size = 1) :
    String.utf8Len cs = cs.length := by
  induction cs with
  | nil => rfl
  | cons c cs ih =>
    rw [List.length_cons, String.utf8Len_cons, h c List.mem_cons_self,
      ih fun d hd => h d (List.mem_cons_of_mem c hd)]

end Text

/-! ## 4. Identities -/

namespace CellId

variable {s : String} {id : CellId}

theorem toList_toText (id : CellId) : id.toText.toList = Nat.toDigits 16 id.value.toNat :=
  String.toList_ofList

/-- A text names an identity by denoting its counter. -/
theorem ofText?_eq_some_iff :
    ofText? s = some id ↔ s.toList ≠ [] ∧ Text.hexNumeral? 0 s.toList = some id.value.toNat := by
  rw [ofText?]
  split
  · rename_i hnil
    simp [hnil]
  · rename_i cs hne
    rw [and_iff_right fun h => hne h, Option.bind_eq_some_iff]
    constructor
    · rintro ⟨n, hn, hid⟩
      split at hid
      · cases hid
        rw [hn, UInt64.toNat_ofNatLT]
      · cases hid
    · intro hn
      refine ⟨_, hn, ?_⟩
      rw [dif_pos id.value.toNat_lt, UInt64.ofNatLT_toNat]

/-- **What is written reads back.** -/
theorem ofText?_toText (id : CellId) : ofText? id.toText = some id := by
  rw [ofText?_eq_some_iff, toList_toText]
  exact ⟨Nat.toDigits_ne_nil, Text.hexNumeral?_toDigits _⟩

/-- **No other text of an identity is shorter** than the one it is written as. -/
theorem utf8ByteSize_toText_le (h : ofText? s = some id) :
    id.toText.utf8ByteSize ≤ s.utf8ByteSize := by
  obtain ⟨hne, hnumeral⟩ := ofText?_eq_some_iff.1 h
  have hbound : id.value.toNat < 16 ^ s.toList.length := by
    have hlt := Text.hexNumeral?_lt hnumeral
    rwa [Nat.zero_add, Nat.one_mul] at hlt
  calc id.toText.utf8ByteSize
    _ = String.utf8Len (Nat.toDigits 16 id.value.toNat) := String.utf8ByteSize_ofList _
    _ = (Nat.toDigits 16 id.value.toNat).length :=
      Text.utf8Len_of_ascii fun _ => Text.utf8Size_of_mem_toDigits
    _ ≤ s.toList.length :=
      (Nat.length_toDigits_le_iff (by decide) (List.length_pos_iff.2 hne)).2 hbound
    _ ≤ String.utf8Len s.toList := Text.length_le_utf8Len _
    _ = s.utf8ByteSize := by rw [← String.utf8ByteSize_ofList, String.ofList_toList]

/-- A text that names an identity: digits of either case, one at least, for a number that fits the
word. -/
def Legible (s : String) : Prop :=
  s.toList ≠ [] ∧ s.toList ⊆ Text.hexDigits ∧ Text.hexNumber s.toList < 2 ^ 64

instance (s : String) : Decidable (Legible s) :=
  inferInstanceAs (Decidable (_ ∧ _ ∧ _))

/-- The text in lower case and without leading zeros. -/
def canonicalText (s : String) : String :=
  String.ofList (Text.canonicalDigits s.toList)

theorem parse_eq_ok_iff :
    parse s = .ok id ↔ Legible s ∧ Text.hexNumber s.toList = id.value.toNat := by
  have hparse : parse s = .ok id ↔ ofText? s = some id := by
    rw [parse]
    cases ofText? s <;> simp
  rw [hparse, ofText?_eq_some_iff, Text.hexNumeral?_eq_some_iff, Legible]
  constructor
  · rintro ⟨hne, hdigits, hnumber⟩
    exact ⟨⟨hne, hdigits, hnumber ▸ id.value.toNat_lt⟩, hnumber⟩
  · rintro ⟨⟨hne, hdigits, -⟩, hnumber⟩
    exact ⟨hne, hdigits, hnumber⟩

theorem exists_parse_eq_ok (h : Legible s) : ∃ id, parse s = .ok id := by
  have hfits : Text.hexNumber s.toList < UInt64.size := h.2.2
  exact ⟨⟨UInt64.ofNatLT _ hfits⟩, parse_eq_ok_iff.2 ⟨h, UInt64.toNat_ofNatLT.symm⟩⟩

theorem parse_of_not_legible (h : ¬ Legible s) : parse s = .error (.invalidCellId s) := by
  cases hread : ofText? s with
  | none => rw [parse, hread]
  | some id =>
    have hparse : parse s = .ok id := by rw [parse, hread]
    exact absurd (parse_eq_ok_iff.1 hparse).1 h

theorem toText_of_parse (h : parse s = .ok id) : id.toText = canonicalText s := by
  obtain ⟨⟨-, hdigits, -⟩, hnumber⟩ := parse_eq_ok_iff.1 h
  rw [toText, canonicalText,
    Text.toDigits_of_hexNumeral? (Text.hexNumeral?_eq_some_iff.2 ⟨hdigits, hnumber⟩)]

/-- **The text of an identity.** It is written in lower case and without leading zeros, and
reads back. A text is read if it is legible, as the number that it denotes, and what is
read of it is written without its capitals and its leading zeros. Of any other text the
fault is that it is no identity. -/
theorem text_form :
    (∀ id : CellId, Text.Written id.toText.toList ∧
      Text.hexNumber id.toText.toList = id.value.toNat ∧ parse id.toText = .ok id) ∧
    (⟨0⟩ : CellId).toText = "0" ∧
    ∀ s, (∀ id, parse s = .ok id ↔ Legible s ∧ Text.hexNumber s.toList = id.value.toNat) ∧
      (parse s).map toText = if Legible s then .ok (canonicalText s)
        else .error (.invalidCellId s) := by
  refine ⟨fun id => ?_, by decide, fun s => ⟨fun id => parse_eq_ok_iff, ?_⟩⟩
  · have hparse : parse id.toText = .ok id := by rw [parse, ofText?_toText]
    refine ⟨?_, (parse_eq_ok_iff.1 hparse).2, hparse⟩
    rw [toList_toText]
    exact Text.written_toDigits _
  · split
    · rename_i hlegible
      obtain ⟨id, hid⟩ := exists_parse_eq_ok hlegible
      rw [hid, ← toText_of_parse hid]
      rfl
    · rename_i hnot
      rw [parse_of_not_legible hnot]
      rfl

/-- The number decides, and not how many digits it has. -/
example :
    (parse "000000000000000000Ff").map toText = .ok "ff" ∧
      parse "10000000000000000" = .error (.invalidCellId "10000000000000000") := by decide +kernel

end CellId

end Notebook
