import Notebook.Config.Basic
import Notebook.Flags.Json

/-!
# Configuration as JSON

The same records as in a settings file. The form of the log is its name, or an object with null
under that name and nothing else.
-/

set_option autoImplicit false

namespace Notebook

def LogFormat.toJson (f : LogFormat) : Json := .text f.name

def LogFormat.ofJson? : Json → Option LogFormat
  | .string name => name.bind LogFormat.ofName?
  | .object [(some name, .null)] => LogFormat.ofName? name
  | _ => none

/-- What is said about the log, as JSON. -/
def LogConfig.toJson (l : LogConfig) : Json :=
  .ofMembers [("filter", .text l.filter), ("format", l.format.toJson)]

/-- Reads what is said about the log. -/
def LogConfig.ofJson? (j : Json) : Option LogConfig := do
  let default : LogConfig := {}
  let f ← Json.Fields.read ["filter", "format"] j
  let filter ← f.withDefault "filter" default.filter Json.string?
  let format ← f.withDefault "format" default.format LogFormat.ofJson?
  some { filter, format }

def Config.toJson (c : Config) : Json :=
  .ofMembers [("defaults", c.defaults.toJson), ("log", c.log.toJson)]

def Config.ofJson? (j : Json) : Option Config := do
  let f ← Json.Fields.read ["defaults", "log"] j
  let defaults ← f.withDefault "defaults" {} RunFlags.ofJson?
  let log ← f.withDefault "log" {} LogConfig.ofJson?
  some { defaults, log }

end Notebook
