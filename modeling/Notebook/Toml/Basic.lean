import Notebook.Text.Hex

/-!
# Values of a settings file

The values that a TOML document is made of. A number is kept as it is written, an integer by its
base and its digits, and a decimal fraction by its digits and its exponent. Whether there is such
a number, and how large it may be, is asked when it is used. A number that no setting looks at
must still be one that a reader could be handed, an integer of at most 128 bits or a fraction
that does not round to infinity.
-/

set_option autoImplicit false

namespace Notebook

namespace Toml

/-! ## 1. Numbers -/

/-- An integer as it is written: its base, its sign, and what stands for its digits. There need
not be a digit, and what is there need not be one. -/
structure Numeral where
  base : Nat
  negative : Bool
  digits : List Char
  deriving DecidableEq, Repr

/-- Is the character a digit of the given base? -/
def isDigitOf (base : Nat) (c : Char) : Bool :=
  (Text.hexDigit? c).any fun d => d < base

/-- The number that digits of the given base denote. -/
def positional (base : Nat) (digits : List Char) : Nat :=
  digits.foldl (fun n c => base * n + (Text.hexDigit? c).getD 0) 0

/-- The integer that a numeral denotes, if its digits are digits of its base and there is one at
least. -/
def Numeral.value? (n : Numeral) : Option Int :=
  if n.digits.isEmpty || !n.digits.all (isDigitOf n.base) then none
  else
    let magnitude : Int := positional n.base n.digits
    some (if n.negative then -magnitude else magnitude)

/-- Does the numeral denote an integer that fits into 128 bits, with a sign or without? -/
def Numeral.fits (n : Numeral) : Bool :=
  n.value?.any fun v => -(Nat.pow 2 127 : Int) ≤ v && v < (Nat.pow 2 128 : Int)

/-- A number with a fraction or an exponent, or one of the words for what is no number. -/
inductive Fraction where
  | infinity
  | notANumber
  /-- The digits, taken as one integer, times a power of ten. The sign is left out. -/
  | decimal (digits : Nat) (exponent : Int)
  deriving DecidableEq, Repr

/-- The least magnitude that rounds to infinity in double precision. -/
def leastInfinite : Nat := Nat.pow 2 1024 - Nat.pow 2 970

/-- The number of decimal digits of a positive number. -/
def decimalLength (n : Nat) : Nat :=
  (Nat.toDigits 10 n).length

/-- Does the decimal fraction round to infinity? Only near the bound is the power of ten worked
out. -/
def Fraction.overflows : Fraction → Bool
  | .infinity => false
  | .notANumber => false
  | .decimal digits exponent =>
    if digits = 0 then false
    else
      let magnitude := (decimalLength digits : Int) + exponent
      if magnitude < 300 then false
      else if 320 < magnitude then true
      else if 0 ≤ exponent then leastInfinite ≤ digits * Nat.pow 10 exponent.toNat
      else leastInfinite * Nat.pow 10 (-exponent).toNat ≤ digits

end Toml

/-! ## 2. Values -/

/-- A value of a TOML document. -/
inductive Toml where
  | text (value : String)
  | integer (numeral : Toml.Numeral)
  | fraction (value : Toml.Fraction)
  | boolean (value : Bool)
  /-- A date, a time of day, or both, as it is written. -/
  | moment (literal : String)
  | array (items : List Toml)
  | table (entries : List (String × Toml))
  deriving Repr, Inhabited

namespace Toml

mutual

/-- Can every number in the value be handed to a reader? -/
def representable : Toml → Bool
  | .text _ => true
  | .integer n => n.fits
  | .fraction f => !f.overflows
  | .boolean _ => true
  | .moment _ => true
  | .array items => representableItems items
  | .table entries => representableEntries entries

/-- Can every number in the items be handed to a reader? -/
def representableItems : List Toml → Bool
  | [] => true
  | item :: rest => representable item && representableItems rest

/-- Can every number in the entries be handed to a reader? -/
def representableEntries : List (String × Toml) → Bool
  | [] => true
  | (_, value) :: rest => representable value && representableEntries rest

end

end Toml

end Notebook
