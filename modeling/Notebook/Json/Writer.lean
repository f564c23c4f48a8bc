import Notebook.Json.Basic
import Notebook.Json.Escape

/-!
# Writing JSON

Two layouts. The compact one has no blanks at all. The other is for files that people look at: every
element and member on a line of its own, two spaces further in than what it belongs to, and a space
behind the colon. An empty array or object is written without a line break in both.
-/

set_option autoImplicit false

namespace Notebook.Json

/-- A string. One that has no text is written as an unpaired half, which denotes no text either. -/
def stringText : Option String → List Char
  | some s => quotedText s
  | none => ['"', '\\', 'u', 'd', '8', '0', '0', '"']

mutual

def compactChars : Json → List Char
  | .null => ['n', 'u', 'l', 'l']
  | .bool true => ['t', 'r', 'u', 'e']
  | .bool false => ['f', 'a', 'l', 's', 'e']
  | .number literal => literal.toList
  | .string text => stringText text
  | .array elements => '[' :: compactElements elements ++ [']']
  | .object members => '\x7b' :: compactMembers members ++ ['\x7d']

/-- Elements without blanks, a comma between them. -/
def compactElements : List Json → List Char
  | [] => []
  | [e] => compactChars e
  | e :: es => compactChars e ++ ',' :: compactElements es

/-- Members without blanks, a comma between them. -/
def compactMembers : List (Option String × Json) → List Char
  | [] => []
  | [(name, value)] => stringText name ++ ':' :: compactChars value
  | (name, value) :: ms => stringText name ++ ':' :: compactChars value ++ ',' :: compactMembers ms

end

/-- A line break and the indentation of the given depth. -/
def newline (depth : Nat) : List Char :=
  '\n' :: List.replicate (2 * depth) ' '

mutual

/-- A value with line breaks, at the given depth. -/
def prettyChars (depth : Nat) : Json → List Char
  | .null => ['n', 'u', 'l', 'l']
  | .bool true => ['t', 'r', 'u', 'e']
  | .bool false => ['f', 'a', 'l', 's', 'e']
  | .number literal => literal.toList
  | .string text => stringText text
  | .array [] => ['[', ']']
  | .array (e :: es) => '[' :: prettyElements (depth + 1) (e :: es) ++ newline depth ++ [']']
  | .object [] => ['\x7b', '\x7d']
  | .object (m :: ms) => '\x7b' :: prettyMembers (depth + 1) (m :: ms) ++ newline depth ++ ['\x7d']

/-- Elements on lines of their own, a comma behind all but the last. -/
def prettyElements (depth : Nat) : List Json → List Char
  | [] => []
  | [e] => newline depth ++ prettyChars depth e
  | e :: es => newline depth ++ prettyChars depth e ++ ',' :: prettyElements depth es

/-- Members on lines of their own, a comma behind all but the last. -/
def prettyMembers (depth : Nat) : List (Option String × Json) → List Char
  | [] => []
  | [(name, value)] => newline depth ++ stringText name ++ ':' :: ' ' :: prettyChars depth value
  | (name, value) :: ms =>
    newline depth ++ stringText name ++ ':' :: ' ' :: prettyChars depth value ++
      ',' :: prettyMembers depth ms

end

/-- The value on one line, without blanks. -/
def compact (j : Json) : String :=
  String.ofList (compactChars j)

/-- The value with one element or member on each line. -/
def pretty (j : Json) : String :=
  String.ofList (prettyChars 0 j)

end Notebook.Json
