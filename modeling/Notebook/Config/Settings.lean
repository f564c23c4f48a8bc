import Notebook.Config.Basic
import Notebook.Toml.Reader

/-!
# Configuration from a settings file

A settings file is a TOML document with a table for the run flags and one for the log. Names that
are not known are ignored, but what stands under them has to be representable. A record may also
be written as an array of its fields in their order; fields at its end may be left out, and items
beyond the last field are not looked at. A date stands for a record that says nothing.

The form of the log is its name, or a table whose only entry is empty and has that name.
-/

set_option autoImplicit false

namespace Notebook

namespace Toml

def boolean? : Toml → Option Bool
  | .boolean b => some b
  | _ => none

def text? : Toml → Option String
  | .text s => some s
  | _ => none

/-- Is it a table or an array without anything in it? -/
def isVacant : Toml → Bool
  | .table entries => entries.isEmpty
  | .array items => items.isEmpty
  | _ => false

/-- The fields of a record, whose names are listed in the order of their declaration. -/
def fields? (names : List String) : Toml → Option (List (String × Toml))
  | .table entries =>
    if entries.all fun e => e.1 ∈ names || e.2.representable then some entries else none
  | .array items => some (names.zip items)
  | .moment _ => some []
  | _ => none

/-- A field of a record, or its default if it is not given. -/
def fieldOr {α : Type} (fields : List (String × Toml)) (name : String) (default : α)
    (decode : Toml → Option α) : Option α :=
  match fields.lookup name with
  | some value => decode value
  | none => some default

end Toml

def RunFlags.ofToml? (t : Toml) : Option RunFlags := do
  let default : RunFlags := {}
  let fields ← t.fields? ["silent", "store_history", "stop_on_error"]
  let silent ← Toml.fieldOr fields "silent" default.silent Toml.boolean?
  let storeHistory ← Toml.fieldOr fields "store_history" default.storeHistory Toml.boolean?
  let stopOnError ← Toml.fieldOr fields "stop_on_error" default.stopOnError Toml.boolean?
  some { silent, storeHistory, stopOnError }

def LogFormat.ofToml? : Toml → Option LogFormat
  | .text name => LogFormat.ofName? name
  | .table [(name, value)] => if value.isVacant then LogFormat.ofName? name else none
  | _ => none

/-- Reads what is said about the log. -/
def LogConfig.ofToml? (t : Toml) : Option LogConfig := do
  let default : LogConfig := {}
  let fields ← t.fields? ["filter", "format"]
  let filter ← Toml.fieldOr fields "filter" default.filter Toml.text?
  let format ← Toml.fieldOr fields "format" default.format LogFormat.ofToml?
  some { filter, format }

namespace Config

def ofToml? (t : Toml) : Option Config := do
  let fields ← t.fields? ["defaults", "log"]
  let defaults ← Toml.fieldOr fields "defaults" {} RunFlags.ofToml?
  let log ← Toml.fieldOr fields "log" {} LogConfig.ofToml?
  some { defaults, log }

/-- Reads the text of a settings file. -/
def ofText (text : String) : Except Fault Config :=
  match (Toml.ofText? text).bind fun entries => ofToml? (.table entries) with
  | some config => .ok config
  | none => .error (.config "the text is no configuration")

/-- Reads the contents of a settings file, if there is such a file. -/
def ofContents : Option ByteArray → Except Fault Config
  | none => .error (.io "there is no such file")
  | some bytes =>
    match String.fromUTF8? bytes with
    | none => .error (.io "the file is not valid UTF-8")
    | some text => ofText text

end Config

end Notebook
