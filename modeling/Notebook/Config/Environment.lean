import Notebook.Config.Basic

/-!
# The environment

Four variables of the environment override a configuration. They are looked at in a
fixed order, and the first one that cannot be read is reported. A variable that is not
set leaves its setting alone.
-/

set_option autoImplicit false

namespace Notebook

namespace Config

/-- Reads the value of a variable that is either on or off. -/
def parseSwitch (key value : String) : Except Fault Bool :=
  let word := Text.lowerAscii (Text.trim value)
  if word ∈ ["1", "true", "yes", "on"] then .ok true
  else if word ∈ ["0", "false", "no", "off"] then .ok false
  else .error (.config s!"{key}: expected a boolean, got '{word}'")

/-- What a variable says, or a value of its own if it is not set. -/
def variableOr {α : Type} (lookup : String → Option String) (key : String) (unset : α)
    (parse : String → Except Fault α) : Except Fault α :=
  match lookup key with
  | some value => parse value
  | none => .ok unset

/-- The configuration with the variables of the environment laid over it. -/
def withEnvironment (c : Config) (lookup : String → Option String) : Except Fault Config := do
  let silent ← variableOr lookup "DFKERNEL_SILENT" c.defaults.silent
    (parseSwitch "DFKERNEL_SILENT")
  let storeHistory ← variableOr lookup "DFKERNEL_STORE_HISTORY" c.defaults.storeHistory
    (parseSwitch "DFKERNEL_STORE_HISTORY")
  let filter ← variableOr lookup "DFKERNEL_LOG" c.log.filter .ok
  let format ← variableOr lookup "DFKERNEL_LOG_FORMAT" c.log.format LogFormat.parse
  .ok ⟨{ c.defaults with silent, storeHistory }, ⟨filter, format⟩⟩

end Config

end Notebook
