/-!
# Reading bytes

A cursor is a place in an array of bytes. What can be said about reading at a place depends
only on the bytes that are left there (`Cursor.rest`), and each way of moving on is
described by what it does to them.

Reading fails for one of six reasons, and the first one in reading order is the one that counts. A
*scan* is a reader that moves a cursor on or fails.
-/

set_option autoImplicit false

namespace Notebook.Bytes

/-- Why bytes cannot be read. -/
inductive Unreadable where
  /-- There are fewer bytes than expected. -/
  | endOfBytes
  /-- A length does not end, or does not fit 64 bits. -/
  | endlessVarint
  /-- A Boolean is neither 0 nor 1. -/
  | notBool
  /-- The mark of an optional value is neither 0 nor 1. -/
  | notOption
  /-- A text is not valid UTF-8. -/
  | notUtf8
  /-- A text is not what it is meant to name. -/
  | notValue
  deriving DecidableEq, Repr

def Unreadable.message : Unreadable → String
  | endOfBytes => "Hit the end of buffer, expected more data"
  | endlessVarint => "Found a varint that didn't terminate. Is the usize too big for this platform?"
  | notBool => "Found a bool that wasn't 0 or 1"
  | notOption => "Found an Option discriminant that wasn't 0 or 1"
  | notUtf8 => "Tried to parse invalid utf-8"
  | notValue => "Serde Deserialization Error"

/-- A place in an array of bytes. -/
structure Cursor where
  bytes : ByteArray
  position : Nat := 0

namespace Cursor

def rest (c : Cursor) : List UInt8 :=
  c.bytes.data.toList.drop c.position

/-- The next byte, and the place behind it. -/
def next? (c : Cursor) : Option (UInt8 × Cursor) :=
  if h : c.position < c.bytes.size then
    some (c.bytes[c.position], { c with position := c.position + 1 })
  else none

/-- The next `n` bytes, and the place behind them. -/
def take? (c : Cursor) (n : Nat) : Option (ByteArray × Cursor) :=
  if c.position + n ≤ c.bytes.size then
    some (c.bytes.extract c.position (c.position + n), { c with position := c.position + n })
  else none

end Cursor

/-- A reader that moves a cursor on or fails. -/
abbrev Scan (α : Type) : Type := StateT Cursor (Except Unreadable) α

namespace Scan

def byte : Scan UInt8 := fun c =>
  match c.next? with
  | some found => .ok found
  | none => .error .endOfBytes

def take (n : Nat) : Scan ByteArray := fun c =>
  match c.take? n with
  | some found => .ok found
  | none => .error .endOfBytes

def fail {α : Type} (reason : Unreadable) : Scan α := fun _ => .error reason

def times {α : Type} (item : Scan α) : Nat → Scan (List α)
  | 0 => pure []
  | n + 1 => do
    let first ← item
    let others ← times item n
    pure (first :: others)

end Scan

end Notebook.Bytes
