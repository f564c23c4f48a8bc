import Notebook.Json.Basic

/-!
# Records as JSON

A value with named fields is read from JSON in either of two forms: from an object, by the
names of its members, or from an array, by position, in the order in which the fields are
declared. In an object a member with an unknown name is ignored and a known name must not occur
twice. In an array there must not be more elements than fields; the fields at the end may be
left out as far as the record allows it.
-/

set_option autoImplicit false

namespace Notebook.Json

/-- The fields that were found for a record. -/
structure Fields where
  /-- The fields by name, as far as they were given. -/
  found : List (String × Json)
  /-- Were they given by position? -/
  positional : Bool

namespace Fields

/-- Finds the fields with the given names, which are listed in the order of their declaration. -/
def read (names : List String) : Json → Option Fields
  | .array elements =>
    if elements.length ≤ names.length then some ⟨names.zip elements, true⟩ else none
  | .object members => do
    let members ← (Json.object members).members?
    let known := members.filter fun m => m.1 ∈ names
    if (known.map Prod.fst).Nodup then some ⟨known, false⟩ else none
  | _ => none

/-- A field that must be given. -/
def required {α : Type} (f : Fields) (name : String) (decode : Json → Option α) : Option α :=
  (f.found.lookup name).bind decode

/-- A field that has a value of its own when it is not given. -/
def withDefault {α : Type} (f : Fields) (name : String) (default : α) (decode : Json → Option α) :
    Option α :=
  match f.found.lookup name with
  | some j => decode j
  | none => some default

/-- A field that is nothing when it is null or not given. -/
def optional {α : Type} (f : Fields) (name : String) (decode : Json → Option α) :
    Option (Option α) :=
  f.withDefault name none (nullable decode)

/-- A field that is nothing when it is null or not named; by position it must be given. -/
def optionalNamed {α : Type} (f : Fields) (name : String) (decode : Json → Option α) :
    Option (Option α) :=
  if f.positional then f.required name (nullable decode) else f.optional name decode

end Fields

end Notebook.Json
