import Notebook.Run.Program

/-!
# Turns

An operation that may run code changes the engine and the state of the runner, and takes notes.
The notes are the *events* of the operation in their order: every step that was offered to the
engine, every reply to a read, and every variable that a call binds. One turn of the engine is the
reply together with the new states and the events.

> **the engine is the replay of its events**: nothing changes an engine except the steps that are
> noted.

An *act* is what takes a turn. It has no answer when runs would nest deeper than the limit
that the engine was given. Acts are composed in the order in which they happen, and their
events are put side by side.
-/

set_option autoImplicit false

namespace Notebook

/-- What is noted of an operation. -/
inductive Event (V : Type) where
  /-- A step was offered to the engine. -/
  | step (step : Step V)
  /-- A read on behalf of the context's cell was answered. -/
  | answered (context : Context) (id : CellId) (reply : Except Fault (Output V))
  /-- A call bound a variable. -/
  | bound (name : String) (value : V)

/-- The step that an event notes, if it notes one. -/
def Event.step? {V : Type} : Event V → Option (Step V)
  | step s => some s
  | _ => none

/-- The outcome of an operation. -/
structure Turn (V σ α : Type) where
  reply : α
  engine : Engine V
  state : σ
  events : List (Event V)

/-- An operation that may run code. It has no outcome if runs nest too deep. -/
def Act (V σ α : Type) : Type := Engine V → σ → Option (Turn V σ α)

namespace Act

variable {V σ α β : Type}

def reply (value : α) : Act V σ α :=
  fun engine state => some ⟨value, engine, state, []⟩

def andThen (act : Act V σ α) (next : α → Act V σ β) : Act V σ β :=
  fun engine state =>
    (act engine state).bind fun first =>
      (next first.reply first.engine first.state).map fun second =>
        { second with events := first.events ++ second.events }

instance : Monad (Act V σ) where
  pure := reply
  bind := andThen

def engine : Act V σ (Engine V) :=
  fun engine state => some ⟨engine, engine, state, []⟩

def state : Act V σ σ :=
  fun engine state => some ⟨state, engine, state, []⟩

def note (event : Event V) : Act V σ Unit :=
  fun engine state => some ⟨(), engine, state, [event]⟩

/-- Changes the state of the runner. -/
def modifyState (f : σ → σ) : Act V σ Unit :=
  fun engine state => some ⟨(), engine, f state, []⟩

/-- Offers a step to the engine and answers whether it was taken. -/
def step (s : Step V) : Act V σ (Except Fault Unit) :=
  fun engine state =>
    some ⟨(engine.step s).map fun _ => (), engine.apply s, state, [.step s]⟩

/-- No outcome, because runs nest too deep. -/
def tooDeep : Act V σ α := fun _ _ => none

end Act

end Notebook
