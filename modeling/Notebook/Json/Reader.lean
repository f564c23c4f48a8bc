import Notebook.Json.Basic
import Notebook.Json.Escape

/-!
# Reading JSON

The reader is strict: the grammar of JSON and nothing besides, with the four blanks that JSON
knows between the tokens. Every reader takes the characters that are left and answers what it
found together with the characters that are left then.

Reading a value nests, so the readers of values, elements and members descend on a bound. Each of
them takes at least one character for every two steps of the bound, so twice the length of the
text is enough, and `Json.ofText?` hides it.
-/

set_option autoImplicit false

namespace Notebook.Json

/-- Is the character one of the four blanks of JSON? -/
def isBlank (c : Char) : Bool :=
  c = ' ' || c = '\n' || c = '\t' || c = '\r'

/-- What is left behind leading blanks. -/
def skipBlanks (s : List Char) : List Char :=
  s.dropWhile isBlank

/-- A run of decimal digits and what is left behind it. -/
def digits (s : List Char) : List Char × List Char :=
  (s.takeWhile Char.isDigit, s.dropWhile Char.isDigit)

/-- Reads a run of at least one digit behind `before`. -/
def readDigits (before : List Char) (s : List Char) : Option (List Char × List Char) :=
  match digits s with
  | ([], _) => none
  | (ds, rest) => some (before ++ ds, rest)

/-- Reads the integer part of a number: a zero, or digits that do not begin with a zero. -/
def readInteger (before : List Char) : List Char → Option (List Char × List Char)
  | '0' :: rest => some (before ++ ['0'], rest)
  | s => readDigits before s

/-- Reads the fraction of a number, if there is one. -/
def readFraction (before : List Char) : List Char → Option (List Char × List Char)
  | '.' :: rest => readDigits (before ++ ['.']) rest
  | s => some (before, s)

/-- Reads the exponent of a number, if there is one. -/
def readExponent (before : List Char) : List Char → Option (List Char × List Char)
  | c :: rest =>
    if c = 'e' ∨ c = 'E' then
      match rest with
      | '+' :: r => readDigits (before ++ [c, '+']) r
      | '-' :: r => readDigits (before ++ [c, '-']) r
      | r => readDigits (before ++ [c]) r
    else some (before, c :: rest)
  | [] => some (before, [])

def readNumber (s : List Char) : Option (Json × List Char) := do
  let (sign, s) := match s with
    | '-' :: rest => (['-'], rest)
    | s => ([], s)
  let (integer, s) ← readInteger sign s
  let (fraction, s) ← readFraction integer s
  let (literal, s) ← readExponent fraction s
  some (.number (String.ofList literal), s)

mutual

def readValue : Nat → List Char → Option (Json × List Char)
  | 0, _ => none
  | bound + 1, s =>
    match skipBlanks s with
    | 'n' :: 'u' :: 'l' :: 'l' :: rest => some (.null, rest)
    | 't' :: 'r' :: 'u' :: 'e' :: rest => some (.bool true, rest)
    | 'f' :: 'a' :: 'l' :: 's' :: 'e' :: rest => some (.bool false, rest)
    | '"' :: rest => (readText rest).map fun p => (.string p.1, p.2)
    | '[' :: rest =>
      match skipBlanks rest with
      | ']' :: rest => some (.array [], rest)
      | rest => (readElements bound rest).map fun p => (.array p.1, p.2)
    | '\x7b' :: rest =>
      match skipBlanks rest with
      | '\x7d' :: rest => some (.object [], rest)
      | rest => (readMembers bound rest).map fun p => (.object p.1, p.2)
    | rest => readNumber rest

/-- Reads the elements of an array up to its closing bracket. -/
def readElements : Nat → List Char → Option (List Json × List Char)
  | 0, _ => none
  | bound + 1, s => do
    let (element, s) ← readValue bound s
    match skipBlanks s with
    | ',' :: rest =>
      let (elements, rest) ← readElements bound rest
      some (element :: elements, rest)
    | ']' :: rest => some ([element], rest)
    | _ => none

/-- Reads the members of an object up to its closing brace. -/
def readMembers : Nat → List Char → Option (List (Option String × Json) × List Char)
  | 0, _ => none
  | bound + 1, s =>
    match skipBlanks s with
    | '"' :: rest => do
      let (name, rest) ← readText rest
      match skipBlanks rest with
      | ':' :: rest =>
        let (value, rest) ← readValue bound rest
        match skipBlanks rest with
        | ',' :: rest =>
          let (members, rest) ← readMembers bound rest
          some ((name, value) :: members, rest)
        | '\x7d' :: rest => some ([(name, value)], rest)
        | _ => none
      | _ => none
    | _ => none

end

/-- The value that a text denotes, if it is one JSON value and nothing else but blanks. -/
def ofText? (text : String) : Option Json :=
  let s := text.toList
  match readValue (2 * s.length + 2) s with
  | some (value, rest) => if (skipBlanks rest).isEmpty then some value else none
  | none => none

end Notebook.Json
