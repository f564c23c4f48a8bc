import Notebook.Text.Hex

/-!
# Quoted texts

Four kinds of quotes. A basic text stands between double quotes and knows escapes, a literal text
stands between single quotes and knows none; each of them also comes with three quotes on either
side and may then extend over several lines. A line break that follows directly upon three quotes
is left out. In a basic text over several lines a backslash at the end of a line swallows the line
break and all blanks that follow.

At the end of a text with three quotes there may be up to five of them. The last three close the
text and the others belong to it.

Controls are refused everywhere, the tab excepted, and a carriage return only stands in
front of a line feed. A reader takes what follows the opening quotes, and answers the text
and what follows the closing ones. Readers of texts that may contain line breaks descend
on the length of what is left.
-/

set_option autoImplicit false

namespace Notebook.Toml

/-- May the character stand in a text or a comment as it is? -/
def isPlain (c : Char) : Bool :=
  c = '\t' || (32 ≤ c.toNat && c.toNat ≠ 127)

/-- Is the character a blank inside a line? -/
def isSpace (c : Char) : Bool :=
  c = ' ' || c = '\t'

/-- What follows a line break, if there is one here. -/
def skipNewline? : List Char → Option (List Char)
  | '\n' :: s => some s
  | '\r' :: '\n' :: s => some s
  | _ => none

/-! ## 1. Escapes -/

/-- Reads the character that `n` hexadecimal digits name. -/
def readCodePoint (n : Nat) (s : List Char) : Option (Char × List Char) :=
  let digits := s.take n
  if digits.length = n then
    match Text.hexNumeral? 0 digits with
    | some code => if code.isValidChar then some (Char.ofNat code, s.drop n) else none
    | none => none
  else none

def readEscape : List Char → Option (Char × List Char)
  | 'b' :: s => some ('\x08', s)
  | 't' :: s => some ('\t', s)
  | 'n' :: s => some ('\n', s)
  | 'f' :: s => some ('\x0c', s)
  | 'r' :: s => some ('\r', s)
  | 'e' :: s => some ('\x1b', s)
  | '"' :: s => some ('"', s)
  | '\\' :: s => some ('\\', s)
  | 'x' :: s => readCodePoint 2 s
  | 'u' :: s => readCodePoint 4 s
  | 'U' :: s => readCodePoint 8 s
  | _ => none

/-! ## 2. One line -/

/-- Reads a basic text on one line. What was read so far is in `acc`, last first. -/
def readBasic : (bound : Nat) → (acc : List Char) → List Char → Option (String × List Char)
  | 0, _, _ => none
  | bound + 1, acc, s =>
    match s with
    | [] => none
    | '"' :: rest => some (String.ofList acc.reverse, rest)
    | '\\' :: rest =>
      match readEscape rest with
      | some (c, rest) => readBasic bound (c :: acc) rest
      | none => none
    | c :: rest => if isPlain c then readBasic bound (c :: acc) rest else none

def readLiteral (s : List Char) : Option (String × List Char) :=
  let body := s.takeWhile fun c => c ≠ '\''
  match s.dropWhile fun c => c ≠ '\'' with
  | _ :: rest => if body.all isPlain then some (String.ofList body, rest) else none
  | [] => none

/-! ## 3. Several lines -/

/-- What follows blanks and line breaks. -/
def skipBlankLines : (bound : Nat) → List Char → List Char
  | 0, s => s
  | bound + 1, s =>
    let s := s.dropWhile isSpace
    match skipNewline? s with
    | some rest => skipBlankLines bound rest
    | none => s

/-- The end of a text with three quotes: what stands behind the three that close it, of which up
to two more are taken into the text. -/
def closeLong (quote : Char) (acc : List Char) (s : List Char) : String × List Char :=
  let extra := ((s.take 2).takeWhile (· = quote)).length
  (String.ofList (List.replicate extra quote ++ acc).reverse, s.drop extra)

/-- Reads a basic text over several lines. What was read so far is in `acc`, last first. -/
def readLongBasic : (bound : Nat) → (acc : List Char) → List Char → Option (String × List Char)
  | 0, _, _ => none
  | bound + 1, acc, s =>
    match s with
    | [] => none
    | '"' :: '"' :: '"' :: rest => some (closeLong '"' acc rest)
    | '\\' :: rest =>
      match skipNewline? (rest.dropWhile isSpace) with
      | some rest => readLongBasic bound acc (skipBlankLines bound rest)
      | none =>
        match readEscape rest with
        | some (c, rest) => readLongBasic bound (c :: acc) rest
        | none => none
    | '\n' :: rest => readLongBasic bound ('\n' :: acc) rest
    | '\r' :: '\n' :: rest => readLongBasic bound ('\n' :: '\r' :: acc) rest
    | c :: rest => if isPlain c then readLongBasic bound (c :: acc) rest else none

/-- Reads a literal text over several lines. What was read so far is in `acc`, last first. -/
def readLongLiteral : (bound : Nat) → (acc : List Char) → List Char → Option (String × List Char)
  | 0, _, _ => none
  | bound + 1, acc, s =>
    match s with
    | [] => none
    | '\'' :: '\'' :: '\'' :: rest => some (closeLong '\'' acc rest)
    | '\n' :: rest => readLongLiteral bound ('\n' :: acc) rest
    | '\r' :: '\n' :: rest => readLongLiteral bound ('\n' :: '\r' :: acc) rest
    | c :: rest => if isPlain c then readLongLiteral bound (c :: acc) rest else none

/-! ## 4. Texts -/

/-- Reads a text on one line, its opening quote included. -/
def readShortText : List Char → Option (String × List Char)
  | '"' :: s => readBasic (s.length + 1) [] s
  | '\'' :: s => readLiteral s
  | _ => none

/-- Reads a text of any kind, its opening quotes included. -/
def readText : List Char → Option (String × List Char)
  | '"' :: '"' :: '"' :: s => readLongBasic (s.length + 1) [] ((skipNewline? s).getD s)
  | '\'' :: '\'' :: '\'' :: s => readLongLiteral (s.length + 1) [] ((skipNewline? s).getD s)
  | s => readShortText s

end Notebook.Toml
