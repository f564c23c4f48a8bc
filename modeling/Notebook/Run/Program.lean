import Notebook.Engine.Step

/-!
# Programs

Code is run by a *runner*, which the engine knows nothing about. What a runner does in one run
is a *program*: it either ends, with an output or a failure, or gives the engine a command and
goes on with the reply. A command may make the engine run other cells, with the same runner,
before it replies. So the runner's own state, of type `σ`, is handed over with every command
and comes back with the reply.

A program is data. It is a tree with one branch for each possible reply, and the engine performs
it step by step (`Notebook.Run.Execution`). This is what makes it possible to say something about
all runners at once: a property of runs is proved by induction on the tree.
-/

set_option autoImplicit false

namespace Notebook

open Std

/-! ## 1. Requests and reports -/

/-- What a runner is asked to run. -/
structure RunRequest where
  cell : CellId
  /-- The persistent code of the cell, or else its display code. -/
  code : String
  /-- The defaults of the engine with the overrides of the request laid over them. -/
  flags : RunFlags
  deriving DecidableEq

/-- An explicit request: apply the batch, then run the cell. -/
structure Request where
  cell : CellId
  batch : Batch
  overrides : FlagOverrides := {}
  deriving DecidableEq

/-- What is reported after an explicit request. -/
structure Report (V : Type) where
  cell : CellId
  result : Except Fault (Output V)
  /-- The fault of the cascade, if it had one. -/
  cascade : Option Fault
  cells : ExtTreeMap CellId Snapshot
  edges : List (CellId × CellId)
  /-- The cells that were deleted since the last report. -/
  deleted : List CellId

/-- The cells that the cascade reports as failed. -/
def Report.failures {V : Type} (r : Report V) : List CellId :=
  match r.cascade with
  | some (.cascadeFailure cells) => cells
  | _ => []

/-! ## 2. Commands -/

/-- What a program can ask of the engine. -/
inductive Command (V : Type) where
  | edit (operation : Edit)
  | inspect
  /-- The output of a cell, read on behalf of the cell that the context names. -/
  | read (context : Context) (id : CellId)
  | write (context : Context) (id : CellId) (output : Output V)
  /-- The output of a cell, which is run unless it may answer its stored output. -/
  | execute (id : CellId) (overrides : FlagOverrides)
  /-- Executions of the descendants of a cell that update themselves. -/
  | cascade (id : CellId)
  | request (request : Request)

/-- What the engine replies to a command. -/
def Command.Reply {V : Type} : Command V → Type
  | edit _ => Except Fault Unit
  | inspect => Engine V
  | read _ _ => Except Fault (Output V)
  | write _ _ _ => Except Fault Unit
  | execute _ _ => Except Fault (Output V)
  | cascade _ => Except Fault Unit
  | request _ => Report V

/-! ## 3. Programs -/

/-- What a runner with state `σ` does to find an `α`. -/
inductive Program (V σ α : Type) where
  | done (state : σ) (value : α)
  /-- A command, and how to go on with the reply. -/
  | ask (state : σ) (command : Command V) (next : σ → command.Reply → Program V σ α)

def Program.andThen {V σ α β : Type} : Program V σ α → (σ → α → Program V σ β) → Program V σ β
  | done state value, next => next state value
  | ask state command rest, next => ask state command fun s reply => (rest s reply).andThen next

/-- A program that starts from any state of its runner: a routine is what runners are
composed of. -/
def Routine (V σ α : Type) : Type := σ → Program V σ α

namespace Routine

variable {V σ α : Type}

instance : Monad (Routine V σ) where
  pure value := fun state => .done state value
  bind routine next := fun state => (routine state).andThen fun s value => next value s

def ask (command : Command V) : Routine V σ command.Reply :=
  fun state => .ask state command fun s reply => .done s reply

def get : Routine V σ σ := fun state => .done state state

/-- Changes the state of the runner. -/
def modify (f : σ → σ) : Routine V σ Unit := fun state => .done (f state) ()

end Routine

/-- What is able to run code: a routine for each run. -/
def Runner (V σ : Type) : Type :=
  Context → RunRequest → Routine V σ (Except RunFailure (Output V))

end Notebook
