import Notebook.Proofs.Run.Composition

/-!
# A turn is the replay of its steps

Every operation that may run code is composed of a few acts that look at the engine, take notes,
or offer a step. So whatever the runner does, and however deep its runs nest, the engine that a
turn leaves behind is the one it began with after the steps that the turn notes.

> **the engine is the replay of its events**: `turn.engine = engine.replay turn.steps`.

With it a property of all reachable engines is proved step by step: it holds of every reachable
engine as soon as no single step breaks it.
-/

set_option autoImplicit false

namespace Notebook

variable {V σ α β : Type}

/-- The steps that a turn notes, in their order. -/
def Turn.steps (t : Turn V σ α) : List (Step V) :=
  t.events.filterMap Event.step?

/-- The engine after the steps that the events note. -/
def Engine.after (e : Engine V) (events : List (Event V)) : Engine V :=
  e.replay (events.filterMap Event.step?)

theorem Engine.after_append (e : Engine V) (before later : List (Event V)) :
    e.after (before ++ later) = (e.after before).after later := by
  rw [after, List.filterMap_append, replay, List.foldl_append]
  rfl

/-- What every step keeps is kept by any number of them. -/
theorem Engine.after_keeps {holds : Engine V → Prop} (hstep : ∀ e s, holds e → holds (e.apply s))
    {e : Engine V} (h : holds e) (events : List (Event V)) : holds (e.after events) :=
  List.foldlRecOn _ apply h fun e he s _ => hstep e s he

/-- The engine is changed by the steps that are noted, and by nothing else. -/
def Act.Faithful (act : Act V σ α) : Prop :=
  ∀ engine state turn, act engine state = some turn → turn.engine = engine.replay turn.steps

namespace Act

theorem faithful_reply (value : α) : (reply value : Act V σ α).Faithful := by
  intro engine state turn h
  obtain rfl := Option.some.inj h
  rfl

theorem faithful_engine : (engine : Act V σ (Engine V)).Faithful := by
  intro engine state turn h
  obtain rfl := Option.some.inj h
  rfl

theorem faithful_state : (state : Act V σ σ).Faithful := by
  intro engine state turn h
  obtain rfl := Option.some.inj h
  rfl

theorem faithful_step (s : Step V) : (step s : Act V σ (Except Fault Unit)).Faithful := by
  intro engine state turn h
  obtain rfl := Option.some.inj h
  simp [Turn.steps, Event.step?, Engine.replay]

/-- Two acts, one after the other, are faithful if both are. -/
theorem Faithful.bind {act : Act V σ α} {next : α → Act V σ β} (hact : act.Faithful)
    (hnext : ∀ value, (next value).Faithful) : (act >>= next).Faithful := by
  intro engine state turn h
  obtain ⟨first, hfirst, h⟩ := Option.bind_eq_some_iff.1 h
  obtain ⟨second, hsecond, rfl⟩ := Option.map_eq_some_iff.1 h
  -- The second act begins with the engine that the first one leaves, and its notes follow the
  -- first's.
  have h1 : first.engine = engine.after first.events := hact engine state first hfirst
  have h2 : second.engine = first.engine.after second.events :=
    hnext _ first.engine first.state second hsecond
  show second.engine = engine.after (first.events ++ second.events)
  rw [Engine.after_append, h2, h1]

/-- Being faithful is a matter of the parts. -/
theorem compositional_faithful : Compositional (V := V) (σ := σ) fun act => act.Faithful where
  reply := faithful_reply
  engine := faithful_engine
  state := faithful_state
  modifyState f engine state turn h := by
    obtain rfl := Option.some.inj h
    rfl
  answered context id reply engine state turn h := by
    obtain rfl := Option.some.inj h
    rfl
  edit operation := faithful_step _
  connect parent child := faithful_step _
  write context id output := faithful_step _
  bind := Faithful.bind

end Act

theorem faithful_conclude (id : CellId) (outcome : Except RunFailure (Output V)) :
    (conclude id outcome : Act V σ _).Faithful := by
  cases outcome with
  | ok output => exact (Act.faithful_step _).bind fun _ => Act.faithful_reply _
  | error failure => exact (Act.faithful_step _).bind fun _ => Act.faithful_reply _

/-- **The engine is the replay of its events**, for every runner and every limit. -/
theorem faithful_runFresh (runner : Runner V σ) (limit : Nat) (id : CellId)
    (overrides : FlagOverrides) : (runFresh runner limit id overrides).Faithful := by
  induction limit generalizing id overrides with
  | zero =>
    unfold runFresh
    refine Act.faithful_engine.bind fun engine => ?_
    split
    · exact Act.faithful_reply _
    · split
      · exact Act.faithful_reply _
      · exact fun _ _ _ h => nomatch h
  | succ limit ih =>
    unfold runFresh
    refine Act.faithful_engine.bind fun engine => ?_
    split
    · exact Act.faithful_reply _
    · split
      · exact Act.faithful_reply _
      · exact (Act.faithful_step _).bind fun _ => Act.faithful_state.bind fun before =>
          (Act.compositional_faithful.perform ih _).bind fun outcome =>
          (faithful_conclude id outcome).bind fun _ =>
          (Act.faithful_step _).bind fun _ => Act.faithful_reply _

/-- Whatever is asked for, the engine is the replay of its events. -/
theorem faithful_carryOut (runner : Runner V σ) (limit : Nat) (command : Command V) :
    (carryOut (runFresh runner limit) command).Faithful :=
  Act.compositional_faithful.carryOut (faithful_runFresh runner limit) command

end Notebook
