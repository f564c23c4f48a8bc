/-!
# Hexadecimal numerals

Digits of either case stand for the same value. How many digits a numeral has, and how large a
number it may denote, is for whoever reads it to say.
-/

set_option autoImplicit false

namespace Notebook.Text

/-- The value of an ASCII hexadecimal digit of either case. -/
def hexDigit? (c : Char) : Option Nat :=
  if '0' ≤ c ∧ c ≤ '9' then some (c.toNat - 48)
  else if 'a' ≤ c ∧ c ≤ 'f' then some (c.toNat - 87)
  else if 'A' ≤ c ∧ c ≤ 'F' then some (c.toNat - 55)
  else none

/-- The number that a run of hexadecimal digits denotes when read behind the number `acc`. -/
def hexNumeral? (acc : Nat) : List Char → Option Nat
  | [] => some acc
  | c :: cs => (hexDigit? c).bind fun d => hexNumeral? (16 * acc + d) cs

end Notebook.Text
