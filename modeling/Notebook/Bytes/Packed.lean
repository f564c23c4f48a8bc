import Notebook.Bytes.Cursor

/-!
# The packed form of values

A compact form without names or types: whoever reads must know what was written. A length is
written with seven bits to a byte, the lowest first, and the high bit says that more bytes follow.
A text is its length in UTF-8 and its bytes, a list its length and its items. A Boolean is one
byte, 0 or 1. An optional value is such a byte, followed by the value if the byte is 1.

Each writer stands beside its reader. A reader takes everything that its writer writes, and stops
behind it whatever follows. It takes lengths with superfluous bytes too, up to ten of them, as
long as the number fits 64 bits.
-/

set_option autoImplicit false

namespace Notebook.Bytes

/-! ## 1. Lengths -/

/-- Writes a number with seven bits to a byte. -/
def packNat (n : Nat) : List UInt8 :=
  if n < 128 then [UInt8.ofNat n] else UInt8.ofNat (n % 128 + 128) :: packNat (n / 128)

/-- Reads what is left of a number: at most `left` bytes, the first of which counts `place` times,
behind bytes that amount to `sum`. -/
def Scan.natFrom : (left place sum : Nat) → Scan Nat
  | 0, _, _ => fail .endlessVarint
  | left + 1, place, sum => do
    let b ← byte
    let sum := sum + b.toNat % 128 * place
    if b.toNat < 128 then
      if left = 0 ∧ 1 < b.toNat then fail .endlessVarint else pure sum
    else natFrom left (place * 128) sum

/-- Reads a number of at most ten bytes and 64 bits. -/
def Scan.nat : Scan Nat := natFrom 10 1 0

/-! ## 2. Texts -/

def packText (s : String) : List UInt8 :=
  packNat s.utf8ByteSize ++ s.toByteArray.data.toList

def Scan.text : Scan String := do
  let size ← nat
  let bytes ← take size
  match String.fromUTF8? bytes with
  | some s => pure s
  | none => fail .notUtf8

def Scan.named {α : Type} (decode : String → Option α) : Scan α := do
  let s ← text
  match decode s with
  | some value => pure value
  | none => fail .notValue

/-! ## 3. Booleans, optional values and lists -/

def packBool (b : Bool) : List UInt8 :=
  [if b then 1 else 0]

/-- Reads a byte that is 0 or 1. -/
def Scan.zeroOrOne (reason : Unreadable) : Scan Bool := do
  let b ← byte
  if b = 0 then pure false else if b = 1 then pure true else fail reason

def Scan.bool : Scan Bool := zeroOrOne .notBool

def packOption {α : Type} (pack : α → List UInt8) : Option α → List UInt8
  | none => [0]
  | some value => 1 :: pack value

def Scan.option {α : Type} (value : Scan α) : Scan (Option α) := do
  if ← zeroOrOne .notOption then
    let v ← value
    pure (some v)
  else pure none

def packList {α : Type} (pack : α → List UInt8) (items : List α) : List UInt8 :=
  packNat items.length ++ items.flatMap pack

def Scan.list {α : Type} (item : Scan α) : Scan (List α) := do
  let length ← nat
  times item length

def packPair {α β : Type} (first : α → List UInt8) (second : β → List UInt8) (p : α × β) :
    List UInt8 :=
  first p.1 ++ second p.2

def Scan.pair {α β : Type} (first : Scan α) (second : Scan β) : Scan (α × β) := do
  let a ← first
  let b ← second
  pure (a, b)

end Notebook.Bytes
