import Notebook.Flags
import Notebook.Json.Record

/-!
# Run flags as JSON

A flag that is not given has its default value in a full set of flags, and stays as it is in
overrides, where null says the same.
-/

set_option autoImplicit false

namespace Notebook

/-- The names of the flags, in the order of their declaration. -/
def RunFlags.fieldNames : List String :=
  ["silent", "store_history", "stop_on_error"]

def RunFlags.toJson (flags : RunFlags) : Json :=
  .ofMembers [
    ("silent", .bool flags.silent),
    ("store_history", .bool flags.storeHistory),
    ("stop_on_error", .bool flags.stopOnError)]

def RunFlags.ofJson? (j : Json) : Option RunFlags := do
  let default : RunFlags := {}
  let f ← Json.Fields.read RunFlags.fieldNames j
  let silent ← f.withDefault "silent" default.silent Json.bool?
  let storeHistory ← f.withDefault "store_history" default.storeHistory Json.bool?
  let stopOnError ← f.withDefault "stop_on_error" default.stopOnError Json.bool?
  some { silent, storeHistory, stopOnError }

def FlagOverrides.ofJson? (j : Json) : Option FlagOverrides := do
  let f ← Json.Fields.read RunFlags.fieldNames j
  let silent ← f.optional "silent" Json.bool?
  let storeHistory ← f.optional "store_history" Json.bool?
  let stopOnError ← f.optional "stop_on_error" Json.bool?
  some { silent, storeHistory, stopOnError }

end Notebook
