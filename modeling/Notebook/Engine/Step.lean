import Notebook.Engine.Batch
import Notebook.Engine.Publication

/-!
# Steps

Everything that ever happens to an engine is a sequence of steps. An *edit* is an operation
that anyone may ask for and that runs no code. The other steps make up the runs: a run
begins, a read records an edge, an output is offered for publication, a run fails, and the
executing slot is handed back.

A step that is refused changes nothing, so a history is a list of steps and its result is their
replay.
-/

set_option autoImplicit false

namespace Notebook

/-- An operation that runs no code. -/
inductive Edit where
  | update (batch : Batch)
  | invalidate (id : CellId)
  | setRunning (id : CellId)
  | markDescendantsStale (id : CellId)
  | resetDidRun
  | clear
  | restore (document : Document)
  | overrideFlags (overrides : FlagOverrides)
  | dropDeleted
  | addLink (tag : Tag) (cell : CellId) (makeCurrent : Bool)
  | addLinks (declared : Declarations)
  | removeLinks (cell : CellId)

/-- One step in the life of an engine. -/
inductive Step (V : Type) where
  | edit (operation : Edit)
  | beginRun (id : CellId)
  /-- A read records that the child reads the parent. -/
  | connect (parent child : CellId)
  /-- An output is offered for publication. -/
  | write (context : Context) (id : CellId) (output : Output V)
  | failRun (id : CellId)
  /-- The executing slot is handed back. -/
  | resume (slot : Option CellId)

namespace Engine

variable {V : Type}

/-- The engine after an edit, or why it is refused. -/
def edit (e : Engine V) : Edit → Except Fault (Engine V)
  | .update batch => .ok (e.update batch)
  | .invalidate id => e.invalidate id
  | .setRunning id => e.setRunning id
  | .markDescendantsStale id => .ok (e.markDescendantsStale id)
  | .resetDidRun => .ok e.resetDidRun
  | .clear => .ok e.clear
  | .restore document => .ok (e.restore document)
  | .overrideFlags overrides => .ok (e.overrideFlags overrides)
  | .dropDeleted => .ok e.dropDeleted
  | .addLink tag cell makeCurrent => .ok (e.addLink tag cell makeCurrent)
  | .addLinks declared => .ok (e.addLinks declared)
  | .removeLinks cell => .ok (e.removeLinks cell)

/-- The engine after a step, or why it is refused. -/
def step (e : Engine V) : Step V → Except Fault (Engine V)
  | .edit operation => e.edit operation
  | .beginRun id => .ok (e.beginRun id)
  | .connect parent child => .ok { e with graph := (e.graph.addEdge parent child).2 }
  | .write context id output => e.write context id output
  | .failRun id => .ok (e.failRun id)
  | .resume slot => .ok (e.resume slot)

/-- The engine after a step; a step that is refused changes nothing. -/
def apply (e : Engine V) (s : Step V) : Engine V :=
  match e.step s with
  | .ok next => next
  | .error _ => e

def replay (e : Engine V) (history : List (Step V)) : Engine V :=
  history.foldl apply e

end Engine

end Notebook
