import Notebook.Toml.Basic

/-!
# Numbers, dates and words

What a value that stands without quotes can be. It is a run of characters, and it is one of the
two Booleans, an integer in one of four bases, a decimal fraction, one of the words for what is no
number, or a moment: a date, a time of day, or both, with or without the offset of a time zone.

An underscore may stand between two digits and nowhere else. A decimal number has no superfluous
zeros in front.

A fraction is read here to its end. An integer is not: it is recognised by how it begins and by what
stands beside its underscores, and whether it denotes a number is asked when it is used.
-/

set_option autoImplicit false

namespace Notebook.Toml

/-! ## 1. Integers -/

/-- Takes the underscores out of a run of digits. Each has to stand between two digits;
`behindDigit` says whether there is one in front of the run. -/
def ungroup (isDigit : Char → Bool) : (behindDigit : Bool) → List Char → Option (List Char)
  | true, [] => some []
  | false, [] => none
  | behindDigit, c :: cs =>
    if isDigit c then (ungroup isDigit true cs).map (c :: ·)
    else if behindDigit && c = '_' then ungroup isDigit false cs
    else none

/-- Takes the underscores out of a numeral. Each has to stand between two digits of whatever base;
`behindDigit` says whether there is one in front. Nothing else is looked at. -/
def dropMarks : (behindDigit : Bool) → List Char → Option (List Char)
  | _, [] => some []
  | behindDigit, c :: cs =>
    if c = '_' then
      if behindDigit && cs.head?.any (isDigitOf 16) then dropMarks false cs else none
    else (dropMarks (isDigitOf 16 c) cs).map (c :: ·)

/-- Reads a numeral that names its base. It may be without digits. -/
def based? (base : Nat) (s : List Char) : Option Numeral :=
  if s.isEmpty then some ⟨base, false, []⟩
  else (ungroup (isDigitOf base) false s).map fun digits => ⟨base, false, digits⟩

/-- Takes a sign off the front: is it a minus, and what is left? -/
def unsigned : List Char → Bool × List Char
  | '-' :: s => (true, s)
  | '+' :: s => (false, s)
  | s => (false, s)

/-- Is there a zero in front of something else? -/
def hasLeadingZero : List Char → Bool
  | '0' :: _ :: _ => true
  | _ => false

/-- Does the character make something else of a run that begins like an integer, a fraction or two
words? -/
def endsNumeral (c : Char) : Bool :=
  c = '.' || c = 'e' || c = 'E' || c = ' '

/-- The digits of a decimal integer without its sign. It is digits to its end, or digits up to an
underscore. -/
def decimalNumeral? (s : List Char) : Option (List Char) :=
  if s.isEmpty || hasLeadingZero s then none
  else
    match s.dropWhile Char.isDigit with
    | [] => some s
    | '_' :: rest => if rest.any endsNumeral then none else dropMarks false s
    | _ => none

def integer? : List Char → Option Numeral
  | '0' :: 'x' :: s => based? 16 s
  | '0' :: 'o' :: s => based? 8 s
  | '0' :: 'b' :: s => based? 2 s
  | s => (decimalNumeral? (unsigned s).2).map fun digits => ⟨10, (unsigned s).1, digits⟩

/-! ## 2. Fractions -/

/-- Reads an exponent, without the letter in front of it. -/
def exponent? (s : List Char) : Option Int :=
  let (negative, s) := unsigned s
  (ungroup Char.isDigit false s).map fun digits =>
    if negative then -(positional 10 digits : Int) else (positional 10 digits : Int)

/-- Reads the whole part of a fraction, without its sign. -/
def wholePart? (s : List Char) : Option (List Char) :=
  if hasLeadingZero s then none else ungroup Char.isDigit false s

/-- Reads a decimal fraction. It has a fractional part, an exponent, or both. -/
def decimalFraction? (s : List Char) : Option Fraction := do
  let s := (unsigned s).2
  let mantissa := s.takeWhile fun c => c ≠ 'e' && c ≠ 'E'
  let exponent ← match s.dropWhile fun c => c ≠ 'e' && c ≠ 'E' with
    | [] => if mantissa.contains '.' then some 0 else none
    | _ :: e => exponent? e
  let whole ← wholePart? (mantissa.takeWhile (· ≠ '.'))
  let places ← match mantissa.dropWhile (· ≠ '.') with
    | [] => some []
    | _ :: places => ungroup Char.isDigit false places
  some (.decimal (positional 10 (whole ++ places)) (exponent - places.length))

/-- Reads a fraction or one of the words for what is no number. -/
def fraction? (s : List Char) : Option Fraction :=
  let word := (unsigned s).2
  if word = ['i', 'n', 'f'] then some .infinity
  else if word = ['n', 'a', 'n'] then some .notANumber
  else decimalFraction? s

/-! ## 3. Moments -/

def readCount : (n : Nat) → List Char → Option (Nat × List Char)
  | n, s =>
    let digits := s.take n
    if digits.length = n ∧ digits.all Char.isDigit then some (positional 10 digits, s.drop n)
      else none

def readSign (sign : Char) : List Char → Option (List Char)
  | c :: s => if c = sign then some s else none
  | [] => none

/-- The number of days of a month. -/
def daysOfMonth (year month : Nat) : Nat :=
  if month = 2 then
    if year % 4 = 0 ∧ (year % 100 ≠ 0 ∨ year % 400 = 0) then 29 else 28
  else if month = 4 ∨ month = 6 ∨ month = 9 ∨ month = 11 then 30
  else 31

/-- What is left behind a date. -/
def skipDate (s : List Char) : Option (List Char) := do
  let (year, s) ← readCount 4 s
  let s ← readSign '-' s
  let (month, s) ← readCount 2 s
  let s ← readSign '-' s
  let (day, s) ← readCount 2 s
  if 1 ≤ month ∧ month ≤ 12 ∧ 1 ≤ day ∧ day ≤ daysOfMonth year month then some s else none

/-- What is left behind seconds and their decimal places, which may both be missing. -/
def skipSeconds : List Char → Option (List Char)
  | ':' :: s => do
    let (second, s) ← readCount 2 s
    if 60 < second then none
    else
      match s with
      | '.' :: s =>
        if (s.takeWhile Char.isDigit).isEmpty then none else some (s.dropWhile Char.isDigit)
      | s => some s
  | s => some s

/-- What is left behind hours and minutes. -/
def skipMinutes (s : List Char) : Option (List Char) := do
  let (hour, s) ← readCount 2 s
  let s ← readSign ':' s
  let (minute, s) ← readCount 2 s
  if hour ≤ 23 ∧ minute ≤ 59 then some s else none

/-- What is left behind a time of day. -/
def skipTime (s : List Char) : Option (List Char) :=
  (skipMinutes s).bind skipSeconds

/-- What is left behind the offset of a time zone, which may be missing. -/
def skipOffset : List Char → Option (List Char)
  | 'Z' :: s => some s
  | 'z' :: s => some s
  | '+' :: s => skipMinutes s
  | '-' :: s => skipMinutes s
  | s => some s

/-- Is it a date, a time of day, or both? Between the two stands the letter T or a space, and only
behind both there may be an offset. -/
def isMoment (s : List Char) : Bool :=
  match skipDate s with
  | some [] => true
  | some (c :: time) =>
    (c = 'T' || c = 't' || c = ' ') && ((skipTime time).bind skipOffset) == some []
  | none => skipTime s == some []

/-! ## 4. Words -/

/-- The value that a run of characters without quotes denotes. -/
def scalar? (s : List Char) : Option Toml :=
  if s = ['t', 'r', 'u', 'e'] then some (.boolean true)
  else if s = ['f', 'a', 'l', 's', 'e'] then some (.boolean false)
  else if isMoment s then some (.moment (String.ofList s))
  else
    match integer? s with
    | some n => some (.integer n)
    | none => (fraction? s).map .fraction

end Notebook.Toml
