import Notebook.Text.Hex

/-!
# Text between JSON quotes

How the text of a JSON string is written between quotes, and how what stands between quotes is read.

Writing escapes the quote, the backslash and the controls below the space, five of them by a
letter and the others by four hexadecimal digits; every other character stands for itself. Reading
takes all the escapes of JSON, refuses a raw control, and puts the two halves of a surrogate pair
together when their escapes stand side by side. A half without its partner denotes no character.
Then the string is well-formed but has no text.
-/

set_option autoImplicit false

namespace Notebook.Json

/-! ## 1. Writing -/

def hexDigit (n : Nat) : Char :=
  Nat.digitChar n

/-- How one character appears between quotes. -/
def escapedChar (c : Char) : List Char :=
  if c = '"' then ['\\', '"']
  else if c = '\\' then ['\\', '\\']
  else if c = '\x08' then ['\\', 'b']
  else if c = '\x0c' then ['\\', 'f']
  else if c = '\n' then ['\\', 'n']
  else if c = '\r' then ['\\', 'r']
  else if c = '\t' then ['\\', 't']
  else if c.toNat < 32 then ['\\', 'u', '0', '0', hexDigit (c.toNat / 16), hexDigit (c.toNat % 16)]
  else [c]

def quotedText (s : String) : List Char :=
  '"' :: s.toList.flatMap escapedChar ++ ['"']

/-! ## 2. Reading -/

/-- One unit of what stands between quotes. -/
inductive Piece where
  /-- A character. -/
  | char (c : Char)
  /-- Half of a surrogate pair, named by an escape. -/
  | half (unit : Nat)
  deriving DecidableEq, Repr

/-- The unit that an escape with four hexadecimal digits names. -/
def Piece.ofUnit (n : Nat) : Piece :=
  if 0xD800 ≤ n ∧ n ≤ 0xDFFF then .half n else .char (Char.ofNat n)

/-- The character that a backslash and a letter or sign stand for. -/
def simpleEscape? : Char → Option Char
  | '"' => some '"'
  | '\\' => some '\\'
  | '/' => some '/'
  | 'b' => some '\x08'
  | 'f' => some '\x0c'
  | 'n' => some '\n'
  | 'r' => some '\r'
  | 't' => some '\t'
  | _ => none

/-- Reads up to the closing quote. The pieces read so far are in `acc`, last first. -/
def readPieces (acc : List Piece) : List Char → Option (List Piece × List Char)
  | [] => none
  | '"' :: rest => some (acc.reverse, rest)
  | '\\' :: 'u' :: a :: b :: c :: d :: rest =>
    match Text.hexNumeral? 0 [a, b, c, d] with
    | some n => readPieces (Piece.ofUnit n :: acc) rest
    | none => none
  | '\\' :: e :: rest =>
    match simpleEscape? e with
    | some c => readPieces (.char c :: acc) rest
    | none => none
  | c :: rest => if c.toNat < 32 then none else readPieces (.char c :: acc) rest

/-- The character that the two halves of a surrogate pair denote. -/
def pairedChar (high low : Nat) : Char :=
  Char.ofNat (0x10000 + (high - 0xD800) * 0x400 + (low - 0xDC00))

/-- The text that pieces denote, if every half has its partner. The characters found so far
are in `acc`, last first. -/
def joinPieces (acc : List Char) : List Piece → Option String
  | [] => some (String.ofList acc.reverse)
  | .char c :: rest => joinPieces (c :: acc) rest
  | .half high :: .half low :: rest =>
    if high < 0xDC00 ∧ 0xDC00 ≤ low then joinPieces (pairedChar high low :: acc) rest else none
  | .half _ :: _ => none

/-- Reads what follows an opening quote: the text, if there is one, and what follows the closing
quote. -/
def readText (s : List Char) : Option (Option String × List Char) :=
  (readPieces [] s).map fun p => (joinPieces [] p.1, p.2)

end Notebook.Json
