import Notebook.Graph.Cycle
import Notebook.Run.Turn

/-!
# Execution

Here the engine decides when code is run. An execution runs a cell that is stale, unless the cell
always answers its stored output, and no run begins while the dependency graph has a cycle. A
running cell that reads another one records an edge and has the other cell executed first, so runs
nest. Runs also nest when a runner executes cells, requests or cascades of its own.

Everything that may run code is written here against a parameter `fresh`, the operation that
runs one cell. The operation itself (`runFresh`) descends on a limit for the nesting and plugs
itself in as the parameter. A program is performed by recursion on its tree, so the limit is
only spent where a run starts inside a run. With no levels left an act has no outcome, unless
the run would be refused anyway.
-/

set_option autoImplicit false

namespace Notebook

open Std

/-- The operation that runs the code of one cell. -/
abbrev FreshRun (V σ : Type) : Type :=
  CellId → FlagOverrides → Act V σ (Except Fault (Output V))

section

variable {V σ : Type}

/-! ## 1. Outputs on demand -/

/-- The output of a cell: the stored one if the cell may answer it, and that of a new run
otherwise. -/
def executeWith (fresh : FreshRun V σ) : FreshRun V σ := fun id overrides => do
  let engine ← Act.engine
  match engine.cells[id]? with
  | none => Act.reply (.error (.unknownCell id))
  | some cell => if cell.usesCache then Act.reply (engine.cachedOutput id) else fresh id overrides

/-- What a read is answered: the output of the cell for the cell that the context names, which is
recorded as a reader. A single output without a name is seen as its value. -/
def lookUpWith (fresh : FreshRun V σ) (context : Context) (id : CellId) :
    Act V σ (Except Fault (Output V)) := do
  let engine ← Act.engine
  if !engine.contains id then Act.reply (.error (.unknownCell id))
  else if id = context.cell then Act.reply (.error (.cyclicDependency id))
  else
    -- The edge is recorded before the run, so that two cells that read each other find the cycle.
    let _ ← Act.step (.connect id context.cell)
    let output ← executeWith fresh id {}
    Act.reply (output.map Output.view)

/-- Reads a cell on behalf of the cell that the context names, and notes the answer. -/
def readWith (fresh : FreshRun V σ) (context : Context) (id : CellId) :
    Act V σ (Except Fault (Output V)) := do
  let reply ← lookUpWith fresh context id
  Act.note (.answered context id reply)
  Act.reply reply

/-! ## 2. Cascades and requests -/

/-- Is an ancestor of the cell running? -/
def Engine.ancestorRunning (e : Engine V) (id : CellId) : Bool :=
  (e.graph.ancestorOrder id).any fun parent => (e.cells[parent]?).any fun cell => cell.running

/-- Is it a cascade's turn to run this cell? Not if the cell or an ancestor of it is running, if
it ran already, or if it does not update itself. -/
def Engine.wantsUpdate (e : Engine V) (id : CellId) : Bool :=
  match e.cells[id]? with
  | none => false
  | some cell => !cell.running && !e.ancestorRunning id && !cell.didRun && cell.autoUpdate

/-- Visits cells one after the other, executes those whose turn it is, and answers those of
them whose execution failed. -/
def visitWith (fresh : FreshRun V σ) : List CellId → Act V σ (List CellId)
  | [] => Act.reply []
  | id :: ids => do
    let engine ← Act.engine
    if engine.wantsUpdate id then
      let outcome ← executeWith fresh id {}
      let failures ← visitWith fresh ids
      match outcome with
      | .ok _ => Act.reply failures
      | .error _ => Act.reply (id :: failures)
    else visitWith fresh ids

/-- Executes the descendants of a cell that update themselves, nearest first. A failure does not
stop the walk. At its end the visited cells are reported whose own execution failed. A cell that
ran and failed inside the run of another one, which had read it, ran already when its turn comes.
It is passed over then, and not reported. -/
def cascadeWith (fresh : FreshRun V σ) (id : CellId) : Act V σ (Except Fault Unit) := do
  let engine ← Act.engine
  let failures ← visitWith fresh (engine.graph.descendantOrder id)
  Act.reply (if failures.isEmpty then .ok () else .error (.cascadeFailure failures))

/-- Runs the requested cell even if its stored output is good. -/
def runRequestedWith (fresh : FreshRun V σ) (request : Request) :
    Act V σ (Except Fault (Output V)) := do
  match ← Act.step (.edit (.invalidate request.cell)) with
  | .error fault => Act.reply (.error fault)
  | .ok () => fresh request.cell request.overrides

/-- What follows the run of a requested cell: if the run succeeded, everything that
depends on the cell is stale and is updated as far as it wants to be. Answers the fault of
the cascade, if it had one. -/
def followUpWith (fresh : FreshRun V σ) (id : CellId) (result : Except Fault (Output V)) :
    Act V σ (Option Fault) :=
  match result with
  | .error _ => Act.reply none
  | .ok _ => do
    let _ ← Act.step (.edit (.markDescendantsStale id))
    match ← cascadeWith fresh id with
    | .ok () => Act.reply none
    | .error fault => Act.reply (some fault)

/-- Handles an explicit request: applies the batch, registers the declared tags, forgets who ran,
runs the cell and, if it succeeds, cascades to its descendants. -/
def requestWith (fresh : FreshRun V σ) (request : Request) : Act V σ (Report V) := do
  let _ ← Act.step (.edit (.update request.batch))
  let told ← Act.engine
  let _ ← Act.step (.edit (.addLinks told.declarations))
  let _ ← Act.step (.edit .resetDidRun)
  let result ← runRequestedWith fresh request
  let cascade ← followUpWith fresh request.cell result
  let engine ← Act.engine
  -- The report has taken the deletions over, and the next one starts without them.
  let _ ← Act.step (.edit .dropDeleted)
  Act.reply {
    cell := request.cell
    result
    cascade
    cells := engine.snapshots
    edges := engine.graph.edges
    deleted := engine.deleted }

/-! ## 3. Programs -/

def carryOut (fresh : FreshRun V σ) : (command : Command V) → Act V σ command.Reply
  | .edit operation => Act.step (.edit operation)
  | .inspect => Act.engine
  | .read context id => readWith fresh context id
  | .write context id output => Act.step (.write context id output)
  | .execute id overrides => executeWith fresh id overrides
  | .cascade id => cascadeWith fresh id
  | .request request => requestWith fresh request

/-- Performs a program: its commands one after the other, each with the state that comes with it. -/
def perform {α : Type} (fresh : FreshRun V σ) : Program V σ α → Act V σ α
  | .done state value => do
    Act.modifyState fun _ => state
    Act.reply value
  | .ask state command next => do
    Act.modifyState fun _ => state
    let reply ← carryOut fresh command
    let after ← Act.state
    perform fresh (next after reply)

/-! ## 4. Runs -/

/-- The end of a run: an output is published, with the context of the run, and a failure is
recorded. -/
def conclude (id : CellId) : Except RunFailure (Output V) → Act V σ (Except Fault (Output V))
  | .ok output => do
    let written ← Act.step (.write ⟨id⟩ id output)
    Act.reply (written.map fun _ => output)
  | .error failure => do
    let _ ← Act.step (.failRun id)
    Act.reply (.error (.executionFailure id failure.toText))

/-- Runs the code of a cell. The run is concluded while the cell still owns the executing slot;
afterwards the slot goes back to whom it belonged before. -/
def runFresh (runner : Runner V σ) : Nat → FreshRun V σ
  | limit, id, overrides => do
    let engine ← Act.engine
    if engine.graph.hasCycle then
      Act.reply (.error (.cyclicDependency id))
    else
      match engine.cells[id]? with
      | none => Act.reply (.error (.unknownCell id))
      | some cell =>
        match limit with
        | 0 => Act.tooDeep
        | limit + 1 => do
          -- The flags are those at the beginning of the run, whatever the run does to them.
          let request : RunRequest := ⟨id, cell.runnableCode, engine.flags.override overrides⟩
          let _ ← Act.step (.beginRun id)
          let before ← Act.state
          let outcome ← perform (runFresh runner limit) (runner ⟨id⟩ request before)
          let reply ← conclude id outcome
          -- The slot is handed back even if the publication was refused.
          let _ ← Act.step (.resume engine.executing)
          Act.reply reply

end

/-! ## 5. What is asked from outside

The same operations as they are asked for outside any run, with a limit for the nesting of runs. -/

namespace Runner

variable {V σ : Type}

/-- The output of a cell, which is run unless it may answer its stored output. -/
def execute (runner : Runner V σ) (limit : Nat) : FreshRun V σ :=
  executeWith (runFresh runner limit)

/-- The output of a cell, read with a context that was kept from some run. -/
def read (runner : Runner V σ) (limit : Nat) (context : Context) (id : CellId) :
    Act V σ (Except Fault (Output V)) :=
  readWith (runFresh runner limit) context id

/-- Executions of the descendants of a cell that update themselves. -/
def cascade (runner : Runner V σ) (limit : Nat) (id : CellId) : Act V σ (Except Fault Unit) :=
  cascadeWith (runFresh runner limit) id

def request (runner : Runner V σ) (limit : Nat) (request : Request) : Act V σ (Report V) :=
  requestWith (runFresh runner limit) request

end Runner

end Notebook
