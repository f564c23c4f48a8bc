import Notebook.Json.Reader
import Notebook.Json.Writer
import Notebook.Proofs.CellId

/-!
# Reading back written JSON

The reader takes much that is never written: blanks of any kind between the tokens, all the
escapes of JSON, halves of surrogate pairs. What is written it reads back as it was, at any depth
and whatever stands behind it:

> **what is written reads back**: `ofText? j.pretty = some j`, for a value without numbers
> whose strings all have a text.

A reader of values descends on a bound. Twice the number of characters that were
written for the value is enough, so the statement about a part of a value does not
depend on what the part stands in.
-/

set_option autoImplicit false

namespace Notebook.Json

/-! ## 1. Between quotes -/

theorem hexNumeral?_control {n : Nat} (h : n < 32) :
    Text.hexNumeral? 0 ['0', '0', hexDigit (n / 16), hexDigit (n % 16)] = some n := by
  have hzero : Text.hexDigit? '0' = some 0 := rfl
  simp only [Text.hexNumeral?, hexDigit, hzero, Option.bind_some,
    Text.hexDigit?_digitChar (show n / 16 < 16 by omega),
    Text.hexDigit?_digitChar (Nat.mod_lt n (by decide))]
  exact congrArg some (by omega)

theorem Piece.ofUnit_toNat {c : Char} (h : c.toNat < 32) : Piece.ofUnit c.toNat = .char c := by
  rw [Piece.ofUnit, if_neg (by omega), Char.ofNat_toNat]

theorem readPieces_escapedChar (acc : List Piece) (c : Char) (rest : List Char) :
    readPieces acc (escapedChar c ++ rest) = readPieces (.char c :: acc) rest := by
  rw [escapedChar]
  -- Seven characters have an escape of their own.
  iterate 7 (split; · subst c; rfl)
  split
  · rename_i hcontrol
    show readPieces acc
      ('\\' :: 'u' :: '0' :: '0' :: hexDigit (c.toNat / 16) :: hexDigit (c.toNat % 16) :: rest) = _
    rw [readPieces, hexNumeral?_control hcontrol]
    dsimp only
    rw [Piece.ofUnit_toNat hcontrol]
  · -- The last equation of the reader is for characters that are neither a quote nor a backslash.
    rename_i hquote hback _ _ _ _ _ hcontrol
    show readPieces acc (c :: rest) = _
    rw [readPieces, if_neg hcontrol]
    all_goals simp_all

theorem readPieces_flatMap (acc : List Piece) (cs : List Char) (rest : List Char) :
    readPieces acc (cs.flatMap escapedChar ++ '"' :: rest) =
      some (acc.reverse ++ cs.map .char, rest) := by
  induction cs generalizing acc with
  | nil =>
    rw [List.map_nil, List.append_nil]
    rfl
  | cons c cs ih =>
    rw [List.flatMap_cons, List.append_assoc, readPieces_escapedChar, ih, List.reverse_cons,
      List.append_assoc]
    rfl

theorem joinPieces_chars (acc cs : List Char) :
    joinPieces acc (cs.map .char) = some (String.ofList (acc.reverse ++ cs)) := by
  induction cs generalizing acc with
  | nil =>
    rw [List.append_nil]
    rfl
  | cons c cs ih =>
    rw [List.map_cons, joinPieces, ih, List.reverse_cons, List.append_assoc]
    rfl

theorem quotedText_append (s : String) (rest : List Char) :
    quotedText s ++ rest = '"' :: (s.toList.flatMap escapedChar ++ '"' :: rest) := by
  rw [quotedText, List.cons_append, List.cons_append, List.append_assoc]
  rfl

theorem readText_quoted (s : String) (rest : List Char) :
    readText (s.toList.flatMap escapedChar ++ '"' :: rest) = some (some s, rest) := by
  rw [readText, readPieces_flatMap, List.reverse_nil, List.nil_append, Option.map_some,
    joinPieces_chars, List.reverse_nil, List.nil_append, String.ofList_toList]

/-! ## 2. Blanks -/

theorem skipBlanks_cons {c : Char} (h : isBlank c = false) (s : List Char) :
    skipBlanks (c :: s) = c :: s := by
  rw [skipBlanks, List.dropWhile_cons, h]
  rfl

theorem skipBlanks_skipBlanks (s : List Char) : skipBlanks (skipBlanks s) = skipBlanks s := by
  induction s with
  | nil => rfl
  | cons c s ih =>
    cases h : isBlank c with
    | true =>
      have hskip : skipBlanks (c :: s) = skipBlanks s := by
        rw [skipBlanks, List.dropWhile_cons, h]
        rfl
      rw [hskip, ih]
    | false => rw [skipBlanks_cons h, skipBlanks_cons h]

theorem skipBlanks_newline (depth : Nat) (s : List Char) :
    skipBlanks (newline depth ++ s) = skipBlanks s := by
  have hspaces : ∀ n, skipBlanks (List.replicate n ' ' ++ s) = skipBlanks s := by
    intro n
    induction n with
    | zero => rfl
    | succ n ih => exact ih
  exact hspaces (2 * depth)

theorem readValue_skipBlanks (bound : Nat) (s : List Char) :
    readValue bound (skipBlanks s) = readValue bound s := by
  cases bound with
  | zero => rfl
  | succ bound => rw [readValue, readValue, skipBlanks_skipBlanks]

theorem readElements_skipBlanks (bound : Nat) (s : List Char) :
    readElements bound (skipBlanks s) = readElements bound s := by
  cases bound with
  | zero => rfl
  | succ bound => rw [readElements, readElements, readValue_skipBlanks]

theorem readMembers_skipBlanks (bound : Nat) (s : List Char) :
    readMembers bound (skipBlanks s) = readMembers bound s := by
  cases bound with
  | zero => rfl
  | succ bound => rw [readMembers, readMembers, skipBlanks_skipBlanks]

theorem readValue_newline (bound depth : Nat) (s : List Char) :
    readValue bound (newline depth ++ s) = readValue bound s := by
  rw [← readValue_skipBlanks, skipBlanks_newline, readValue_skipBlanks]

theorem readValue_space (bound : Nat) (s : List Char) :
    readValue bound (' ' :: s) = readValue bound s := by
  rw [← readValue_skipBlanks, ← readValue_skipBlanks bound s]
  rfl

/-! ## 3. One value -/

theorem readValue_text (bound : Nat) (s : String) (rest : List Char) :
    readValue (bound + 1) (quotedText s ++ rest) = some (.text s, rest) := by
  rw [quotedText_append]
  show (readText (s.toList.flatMap escapedChar ++ '"' :: rest)).map _ = _
  rw [readText_quoted]
  rfl

/-- An array with an element: what follows the bracket is no closing bracket. -/
theorem readValue_array {bound : Nat} {s s' : List Char} {c : Char} (h : skipBlanks s = c :: s')
    (hc : c ≠ ']') :
    readValue (bound + 1) ('[' :: s) = (readElements bound s).map fun p =>
      (Json.array p.1, p.2) := by
  have hopen : skipBlanks ('[' :: s) = '[' :: s := skipBlanks_cons rfl s
  simp [readValue, hopen, ← readElements_skipBlanks bound s, h, hc]

/-- An object with a member: what follows the brace is no closing brace. -/
theorem readValue_object {bound : Nat} {s s' : List Char} (h : skipBlanks s = '"' :: s') :
    readValue (bound + 1) ('\x7b' :: s) = (readMembers bound s).map fun p =>
      (Json.object p.1, p.2) := by
  have hopen : skipBlanks ('\x7b' :: s) = '\x7b' :: s := skipBlanks_cons rfl s
  simp [readValue, hopen, ← readMembers_skipBlanks bound s, h]

theorem readElements_of_comma {bound : Nat} {s s' : List Char} {e : Json}
    (h : readValue bound s = some (e, ',' :: s')) :
    readElements (bound + 1) s = (readElements bound s').map fun p => (e :: p.1, p.2) := by
  rw [readElements, h]
  show (readElements bound s').bind _ = _
  cases readElements bound s' <;> rfl

theorem readElements_of_end {bound : Nat} {s s' rest : List Char} {e : Json}
    (h : readValue bound s = some (e, s')) (hend : skipBlanks s' = ']' :: rest) :
    readElements (bound + 1) s = some ([e], rest) := by
  simp [readElements, h, hend]

theorem readMembers_of_comma {bound : Nat} {s t v s' : List Char} {name : Option String}
    {value : Json} (hquote : skipBlanks s = '"' :: t) (hname : readText t = some (name, ':' :: v))
    (h : readValue bound v = some (value, ',' :: s')) :
    readMembers (bound + 1) s = (readMembers bound s').map fun p =>
      ((name, value) :: p.1, p.2) := by
  have hcolon : skipBlanks (':' :: v) = ':' :: v := skipBlanks_cons rfl v
  have hcomma : skipBlanks (',' :: s') = ',' :: s' := skipBlanks_cons rfl s'
  simp only [readMembers, hquote, hname, hcolon, h, hcomma, Option.bind_eq_bind, Option.bind_some]
  cases readMembers bound s' <;> rfl

theorem readMembers_of_end {bound : Nat} {s t v s' rest : List Char} {name : Option String}
    {value : Json} (hquote : skipBlanks s = '"' :: t) (hname : readText t = some (name, ':' :: v))
    (h : readValue bound v = some (value, s')) (hend : skipBlanks s' = '\x7d' :: rest) :
    readMembers (bound + 1) s = some ([(name, value)], rest) := by
  have hcolon : skipBlanks (':' :: v) = ':' :: v := skipBlanks_cons rfl v
  simp [readMembers, hquote, hname, hcolon, h, hend]

/-! ## 4. All values that are written -/

/-- There are no numbers, and every string and every name has a text. -/
inductive Textual : Json → Prop
  | null : Textual .null
  | bool (b : Bool) : Textual (.bool b)
  | text (s : String) : Textual (.text s)
  | array {elements : List Json} (h : ∀ e ∈ elements, Textual e) : Textual (.array elements)
  | object {members : List (Option String × Json)} (hnames : ∀ m ∈ members, ∃ name, m.1 = some name)
      (h : ∀ m ∈ members, Textual m.2) : Textual (.object members)

/-- The value is read back from its layout, whatever follows. Twice the number of its
characters is enough for the bound. -/
def ReadsBack (j : Json) : Prop :=
  ∀ depth bound rest, 2 * (prettyChars depth j).length ≤ bound →
    readValue bound (prettyChars depth j ++ rest) = some (j, rest)

/-- A value begins with a sign of its own, which is neither a blank nor a closing bracket. -/
theorem Textual.head {j : Json} (h : Textual j) (depth : Nat) :
    ∃ c s, prettyChars depth j = c :: s ∧ isBlank c = false ∧ c ≠ ']' := by
  cases h with
  | null => exact ⟨'n', _, rfl, rfl, by decide⟩
  | bool b => cases b <;> exact ⟨_, _, rfl, rfl, by decide⟩
  | text s => exact ⟨'"', _, rfl, rfl, by decide⟩
  | @array elements _ => cases elements <;> exact ⟨'[', _, rfl, rfl, by decide⟩
  | @object members _ _ => cases members <;> exact ⟨'\x7b', _, rfl, rfl, by decide⟩

theorem prettyElements_singleton (depth : Nat) (e : Json) (s : List Char) :
    prettyElements depth [e] ++ s = newline depth ++ (prettyChars depth e ++ s) := by
  rw [prettyElements, List.append_assoc]

theorem prettyElements_cons_cons (depth : Nat) (e e' : Json) (es : List Json) (s : List Char) :
    prettyElements depth (e :: e' :: es) ++ s =
      newline depth ++ (prettyChars depth e ++ ',' :: (prettyElements depth (e' :: es) ++ s)) := by
  rw [prettyElements, List.append_assoc, List.append_assoc, List.cons_append]
  exact List.cons_ne_nil e' es

theorem prettyMembers_singleton (depth : Nat) (name : String) (value : Json) (s : List Char) :
    prettyMembers depth [(some name, value)] ++ s =
      newline depth ++ (quotedText name ++ ':' :: ' ' :: (prettyChars depth value ++ s)) := by
  simp only [prettyMembers, stringText, List.append_assoc, List.cons_append]

theorem prettyMembers_cons_cons (depth : Nat) (name : String) (value : Json)
    (m : Option String × Json) (ms : List (Option String × Json)) (s : List Char) :
    prettyMembers depth ((some name, value) :: m :: ms) ++ s =
      newline depth ++ (quotedText name ++ ':' :: ' ' ::
        (prettyChars depth value ++ ',' :: (prettyMembers depth (m :: ms) ++ s))) := by
  rw [prettyMembers, stringText]
  · simp only [List.append_assoc, List.cons_append]
  · exact List.cons_ne_nil m ms

theorem skipBlanks_prettyElements {e : Json} (h : Textual e) (es : List Json) (depth : Nat)
    (s : List Char) :
    ∃ c s', skipBlanks (prettyElements depth (e :: es) ++ s) = c :: s' ∧ c ≠ ']' := by
  obtain ⟨c, s', hhead, hblank, hc⟩ := h.head depth
  cases es with
  | nil =>
    rw [prettyElements_singleton, skipBlanks_newline, hhead]
    exact ⟨c, _, skipBlanks_cons hblank _, hc⟩
  | cons e' es =>
    rw [prettyElements_cons_cons, skipBlanks_newline, hhead]
    exact ⟨c, _, skipBlanks_cons hblank _, hc⟩

theorem skipBlanks_prettyMembers (name : String) (value : Json) (ms : List (Option String × Json))
    (depth : Nat) (s : List Char) :
    ∃ s', skipBlanks (prettyMembers depth ((some name, value) :: ms) ++ s) = '"' :: s' := by
  cases ms with
  | nil =>
    rw [prettyMembers_singleton, skipBlanks_newline, quotedText_append]
    exact ⟨_, skipBlanks_cons rfl _⟩
  | cons m ms =>
    rw [prettyMembers_cons_cons, skipBlanks_newline, quotedText_append]
    exact ⟨_, skipBlanks_cons rfl _⟩

theorem readElements_pretty {elements : List Json} (hne : elements ≠ [])
    (h : ∀ e ∈ elements, ReadsBack e) {depth bound : Nat} {tail rest : List Char}
    (hbound : 2 * (prettyElements depth elements).length ≤ bound)
    (htail : skipBlanks tail = ']' :: rest) :
    readElements bound (prettyElements depth elements ++ tail) = some (elements, rest) := by
  induction elements generalizing bound with
  | nil => exact absurd rfl hne
  | cons e es ih =>
    have he : ReadsBack e := h e List.mem_cons_self
    -- The reader of elements spends one step on each element, and the line break pays for it.
    have hbreak : 0 < (newline depth).length := Nat.succ_pos _
    cases es with
    | nil =>
      rw [prettyElements, List.length_append] at hbound
      obtain ⟨bound, rfl⟩ := Nat.exists_eq_add_one.2 (show 0 < bound by omega)
      rw [prettyElements_singleton]
      refine readElements_of_end ?_ htail
      rw [readValue_newline, he depth bound tail (by omega)]
    | cons e' es =>
      have hlength := congrArg List.length (prettyElements_cons_cons depth e e' es [])
      simp only [List.append_nil, List.length_append, List.length_cons] at hlength
      obtain ⟨bound, rfl⟩ := Nat.exists_eq_add_one.2 (show 0 < bound by omega)
      have hothers : readElements bound (prettyElements depth (e' :: es) ++ tail) =
          some (e' :: es, rest) :=
        ih (List.cons_ne_nil _ _) (fun x hx => h x (List.mem_cons_of_mem _ hx)) (by omega)
      rw [prettyElements_cons_cons, readElements_of_comma, hothers]
      · rfl
      · rw [readValue_newline, he depth bound _ (by omega)]

theorem readMembers_pretty {members : List (Option String × Json)} (hne : members ≠ [])
    (hnames : ∀ m ∈ members, ∃ name, m.1 = some name) (h : ∀ m ∈ members, ReadsBack m.2)
    {depth bound : Nat} {tail rest : List Char}
    (hbound : 2 * (prettyMembers depth members).length ≤ bound)
    (htail : skipBlanks tail = '\x7d' :: rest) :
    readMembers bound (prettyMembers depth members ++ tail) = some (members, rest) := by
  induction members generalizing bound with
  | nil => exact absurd rfl hne
  | cons m ms ih =>
    obtain ⟨name, value⟩ := m
    obtain ⟨name, rfl⟩ : ∃ n, name = some n := hnames _ List.mem_cons_self
    have hvalue : ReadsBack value := h _ List.mem_cons_self
    have hbreak : 0 < (newline depth).length := Nat.succ_pos _
    have hquote : ∀ s, skipBlanks (newline depth ++ (quotedText name ++ s)) =
        '"' :: (name.toList.flatMap escapedChar ++ '"' :: s) := by
      intro s
      rw [skipBlanks_newline, quotedText_append, skipBlanks_cons rfl]
    cases ms with
    | nil =>
      rw [prettyMembers, List.length_append, List.length_cons, List.length_cons] at hbound
      obtain ⟨bound, rfl⟩ := Nat.exists_eq_add_one.2 (show 0 < bound by omega)
      rw [prettyMembers_singleton]
      refine readMembers_of_end (hquote _) (readText_quoted _ _) ?_ htail
      rw [readValue_space, hvalue depth bound tail (by omega)]
    | cons m' ms =>
      have hlength := congrArg List.length (prettyMembers_cons_cons depth name value m' ms [])
      simp only [List.append_nil, List.length_append, List.length_cons] at hlength
      obtain ⟨bound, rfl⟩ := Nat.exists_eq_add_one.2 (show 0 < bound by omega)
      have hothers : readMembers bound (prettyMembers depth (m' :: ms) ++ tail) =
          some (m' :: ms, rest) :=
        ih (List.cons_ne_nil _ _) (fun x hx => hnames x (List.mem_cons_of_mem _ hx))
          (fun x hx => h x (List.mem_cons_of_mem _ hx)) (by omega)
      rw [prettyMembers_cons_cons, readMembers_of_comma (hquote _) (readText_quoted _ _), hothers]
      · rfl
      · rw [readValue_space, hvalue depth bound _ (by omega)]

/-- At least one step is allowed for a value, since a value has at least one character. -/
theorem Textual.readsBack_of {j : Json} (h : Textual j)
    (hread : ∀ depth bound rest, 2 * (prettyChars depth j).length ≤ bound + 1 →
      readValue (bound + 1) (prettyChars depth j ++ rest) = some (j, rest)) : ReadsBack j := by
  intro depth bound rest hbound
  obtain ⟨c, s, hhead, -, -⟩ := h.head depth
  have hlength : (prettyChars depth j).length = s.length + 1 := congrArg List.length hhead
  obtain ⟨bound, rfl⟩ := Nat.exists_eq_add_one.2 (show 0 < bound by omega)
  exact hread depth bound rest hbound

/-- Every value that is written is read back. -/
theorem Textual.readsBack {j : Json} (h : Textual j) : ReadsBack j := by
  induction h with
  | null => exact Textual.null.readsBack_of fun _ _ _ _ => rfl
  | bool b =>
    refine (Textual.bool b).readsBack_of fun _ _ _ _ => ?_
    cases b <;> rfl
  | text s => exact (Textual.text s).readsBack_of fun _ bound rest _ => readValue_text bound s rest
  | @array elements h ih =>
    refine (Textual.array h).readsBack_of fun depth bound rest hbound => ?_
    cases elements with
    | nil => rfl
    | cons e es =>
      have hlayout : prettyChars depth (.array (e :: es)) ++ rest =
          '[' :: (prettyElements (depth + 1) (e :: es) ++ (newline depth ++ ']' :: rest)) := by
        simp [prettyChars]
      have hlength := congrArg List.length hlayout
      simp only [List.length_append, List.length_cons] at hlength
      obtain ⟨c, s, hfirst, hc⟩ := skipBlanks_prettyElements (h e List.mem_cons_self) es (depth + 1)
        (newline depth ++ ']' :: rest)
      rw [hlayout, readValue_array hfirst hc,
        readElements_pretty (List.cons_ne_nil e es) ih (by omega) (skipBlanks_newline depth _)]
      rfl
  | @object members hnames h ih =>
    refine (Textual.object hnames h).readsBack_of fun depth bound rest hbound => ?_
    cases members with
    | nil => rfl
    | cons m ms =>
      have hlayout : prettyChars depth (.object (m :: ms)) ++ rest =
          '\x7b' :: (prettyMembers (depth + 1) (m :: ms) ++ (newline depth ++ '\x7d' :: rest)) := by
        simp [prettyChars]
      have hlength := congrArg List.length hlayout
      simp only [List.length_append, List.length_cons] at hlength
      obtain ⟨name, hname⟩ := hnames m List.mem_cons_self
      obtain ⟨s, hfirst⟩ := skipBlanks_prettyMembers name m.2 ms (depth + 1)
        (newline depth ++ '\x7d' :: rest)
      rw [← hname] at hfirst
      rw [hlayout, readValue_object hfirst,
        readMembers_pretty (List.cons_ne_nil m ms) hnames ih (by omega)
          (skipBlanks_newline depth _)]
      rfl

/-- **What is written reads back.** -/
theorem Textual.ofText?_pretty {j : Json} (h : Textual j) : ofText? j.pretty = some j := by
  have hread := h.readsBack 0 (2 * (prettyChars 0 j).length + 2) [] (by omega)
  rw [List.append_nil] at hread
  rw [ofText?, pretty, String.toList_ofList]
  simp only [hread]
  rfl

end Notebook.Json
