/-!
# Run flags

The flags that a runner is handed with every run. The engine holds the defaults; a request may
override some of them for its own run and says nothing about the others.
-/

set_option autoImplicit false

namespace Notebook

/-- The flags of one run. -/
structure RunFlags where
  /-- Suppress displayed output. -/
  silent : Bool := false
  /-- Record the run in the history. -/
  storeHistory : Bool := true
  /-- Abort queued work after a failure. -/
  stopOnError : Bool := true
  deriving DecidableEq, Repr, Inhabited

/-- The flags that a request sets for itself. A flag without a value is left as it is. -/
structure FlagOverrides where
  silent : Option Bool := none
  storeHistory : Option Bool := none
  stopOnError : Option Bool := none
  deriving DecidableEq, Repr, Inhabited

namespace RunFlags

/-- The flags with the overrides laid over them. -/
def override (flags : RunFlags) (o : FlagOverrides) : RunFlags where
  silent := o.silent.getD flags.silent
  storeHistory := o.storeHistory.getD flags.storeHistory
  stopOnError := o.stopOnError.getD flags.stopOnError

@[simp] theorem override_none (flags : RunFlags) : flags.override {} = flags := rfl

end RunFlags

end Notebook
