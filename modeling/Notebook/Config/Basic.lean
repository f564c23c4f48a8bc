import Notebook.Fault
import Notebook.Flags
import Notebook.Text.Blank

/-!
# Configuration

The run flags that an engine starts with, and what is logged and in which form. A configuration
is read from a settings file (`Notebook.Config.Settings`) or from JSON
(`Notebook.Config.Json`), and the environment can override parts of it
(`Notebook.Config.Environment`). Whatever is not said has its default.
-/

set_option autoImplicit false

namespace Notebook

/-- The form of the log. -/
inductive LogFormat where
  | text
  | json
  deriving DecidableEq, Repr, Inhabited

namespace LogFormat

def name : LogFormat → String
  | text => "text"
  | json => "json"

def ofName? (name : String) : Option LogFormat :=
  if name = "text" then some text
  else if name = "json" then some json
  else none

/-- Reads the name of a form in letters of either case, with or without blanks around it. -/
def parse (s : String) : Except Fault LogFormat :=
  let name := Text.lowerAscii (Text.trim s)
  match ofName? name with
  | some format => .ok format
  | none => .error (.config s!"unknown log format '{name}' (expected 'text' or 'json')")

end LogFormat

/-- What is logged, and how. -/
structure LogConfig where
  /-- The directive that selects what is logged. -/
  filter : String := "dfkernel_core=info"
  format : LogFormat := .text
  deriving DecidableEq, Repr

/-- The configuration of an engine. -/
structure Config where
  /-- The run flags that the engine starts with. -/
  defaults : RunFlags := {}
  log : LogConfig := {}
  deriving DecidableEq, Repr

end Notebook
