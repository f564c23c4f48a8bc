/-!
# JSON values

The values that a JSON text denotes. Two points keep the reading of a text faithful to what it
says. A number is kept as it was written. And the members of an object are kept in order, repeated
names included, because whether a repetition is a fault depends on what the object is read as.

A string may name half of a surrogate pair by an escape. With such an unpaired half it denotes no
text, and the value then holds none; it is harmless as long as nobody asks for the text.
-/

set_option autoImplicit false

namespace Notebook

/-- A JSON value. -/
inductive Json where
  | null
  | bool (value : Bool)
  /-- A number, as it is written. -/
  | number (literal : String)
  /-- A string; no text if it has an unpaired surrogate. -/
  | string (text : Option String)
  | array (elements : List Json)
  /-- The members in order, with repetitions. -/
  | object (members : List (Option String × Json))
  deriving Repr, Inhabited

namespace Json

/-- A string with the given text. -/
def text (s : String) : Json := .string (some s)

/-- A string, or null if there is no text. -/
def text? : Option String → Json
  | some s => text s
  | none => .null

/-- An object with the given members. -/
def ofMembers (members : List (String × Json)) : Json :=
  .object (members.map fun m => (some m.1, m.2))

def bool? : Json → Option Bool
  | .bool b => some b
  | _ => none

def string? : Json → Option String
  | .string text => text
  | _ => none

def array? : Json → Option (List Json)
  | .array elements => some elements
  | _ => none

/-- The members of an object, if every name is a text. -/
def members? : Json → Option (List (String × Json))
  | .object members => members.mapM fun m => m.1.map fun name => (name, m.2)
  | _ => none

/-- Nothing for null, and otherwise what `decode` finds. -/
def nullable {α : Type} (decode : Json → Option α) : Json → Option (Option α)
  | .null => some none
  | j => (decode j).map some

/-- The elements of an array, each of them decoded. -/
def arrayOf {α : Type} (decode : Json → Option α) (j : Json) : Option (List α) :=
  j.array?.bind fun elements => elements.mapM decode

end Json

end Notebook
