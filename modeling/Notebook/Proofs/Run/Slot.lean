import Notebook.Proofs.Engine.Edits
import Notebook.Proofs.Run.History

/-!
# The executing slot belongs to the innermost run

Nothing is assumed of the runner here. In a run it may ask for anything: edit the notebook,
clear it or restore another one, have further cells run, publish, and use contexts that it has
kept from runs long past. Still

> **the executing slot is free, or it belongs to the innermost run in progress**,

because a run that begins takes the slot, hands it back to whom it belonged before, whatever the
run has come to, and nothing in between does more than to free it. So an output is only published
by the innermost run, for its own cell, and between calls nothing is published at all. The calls
of a history return. What happens in one that does not return happens as well in one whose runner
ends its runs at a later point.
-/

set_option autoImplicit false

namespace Notebook

variable {V σ α β : Type}

/-! ## 1. One step -/

/-- A step that neither opens nor closes a run. -/
def Step.Inner : Step V → Prop
  | .edit _ => True
  | .connect _ _ => True
  | .write _ _ _ => True
  | _ => False

namespace Engine

/-- A step that neither opens nor closes a run leaves the slot alone or frees it. -/
theorem executing_apply {s : Step V} (hinner : s.Inner) (e : Engine V) :
    (e.apply s).executing = none ∨ (e.apply s).executing = e.executing := by
  cases s with
  | edit operation =>
    obtain ⟨batch, h⟩ | h | ⟨document, h⟩ | ⟨-, h, -⟩ := e.apply_edit_cases operation
    · rw [h]
      exact .inr (e.executing_update batch)
    · rw [h]
      exact .inl rfl
    · rw [h]
      exact .inl (e.clear.executing_update _)
    · exact .inr h
  | connect parent child => exact .inr rfl
  | write context id output =>
    obtain h | ⟨cell, -, -, -, h⟩ := e.apply_write_cases context id output
    all_goals
      rw [h]
      exact .inr rfl
  | beginRun id => exact hinner.elim
  | failRun id => exact hinner.elim
  | resume slot => exact hinner.elim

/-- The slot is free, or it belongs to the innermost run. -/
def SlotFits (e : Engine V) (runs : List CellId) : Prop :=
  e.executing = none ∨ e.executing = runs.head?

theorem SlotFits.of_executing {e e' : Engine V} {runs : List CellId} (h : e.SlotFits runs)
    (hslot : e'.executing = none ∨ e'.executing = e.executing) : e'.SlotFits runs := by
  obtain hfree | hslot := hslot
  · exact .inl hfree
  · rwa [SlotFits, hslot]

theorem SlotFits.beginRun (e : Engine V) (id : CellId) (runs : List CellId) :
    (e.beginRun id).SlotFits (id :: runs) := .inr rfl

/-- Whoever publishes owns the slot, and publishes for its own cell. -/
theorem owner_of_write {e next : Engine V} {context : Context} {id : CellId} {output : Output V}
    (hwrite : e.write context id output = .ok next) :
    id = context.cell ∧ e.executing = some id := by
  by_contra hnot
  rw [write, if_neg hnot] at hwrite
  cases hwrite

/-- Whoever publishes is the innermost run, and publishes for its own cell. -/
theorem SlotFits.of_write {e next : Engine V} {runs : List CellId} (h : e.SlotFits runs)
    {context : Context} {id : CellId} {output : Output V}
    (hwrite : e.write context id output = .ok next) : id = context.cell ∧ runs.head? = some id := by
  obtain ⟨hcontext, hslot⟩ := owner_of_write hwrite
  refine ⟨hcontext, ?_⟩
  obtain hfree | hfits := h
  · rw [hslot] at hfree
    cases hfree
  · rw [← hfits, hslot]

/-- Without runs in progress nothing is published. -/
theorem SlotFits.write_idle {e : Engine V} (h : e.SlotFits []) (context : Context) (id : CellId)
    (output : Output V) :
    e.write context id output = .error (.unauthorizedWrite id context.cell) := by
  have hfree : e.executing = none := h.elim (fun h => h) fun h => h
  rw [write, if_neg]
  rintro ⟨-, hslot⟩
  rw [hfree] at hslot
  cases hslot

end Engine

/-! ## 2. All steps of an operation -/

theorem Step.Inner.runsAfter {s : Step V} (h : s.Inner) (runs : List CellId) :
    (Event.step s).runsAfter runs = runs := by
  cases s with
  | beginRun id => exact h.elim
  | resume slot => exact h.elim
  | edit operation | connect parent child | write context id output | failRun id => rfl

/-- The slot fits the runs in progress at every moment while the events happen. -/
def Guarded (runs : List CellId) (e : Engine V) : List (Event V) → Prop
  | [] => e.SlotFits runs
  | event :: events => e.SlotFits runs ∧ Guarded (event.runsAfter runs) (e.after [event]) events

namespace Guarded

variable {runs : List CellId} {e : Engine V} {events : List (Event V)}

theorem start (h : Guarded runs e events) : e.SlotFits runs := by
  cases events with
  | nil => exact h
  | cons event events => exact h.1

theorem append {before later : List (Event V)} (h : Guarded runs e before)
    (hlater : Guarded (openRuns runs before) (e.after before) later) :
    Guarded runs e (before ++ later) := by
  induction before generalizing runs e with
  | nil => exact hlater
  | cons event before ih =>
    refine ⟨h.1, ih h.2 ?_⟩
    rwa [← List.singleton_append, Engine.after_append] at hlater

theorem between (h : Guarded runs e events) {before later : List (Event V)}
    (hsplit : events = before ++ later) : (e.after before).SlotFits (openRuns runs before) := by
  subst hsplit
  induction before generalizing runs e with
  | nil => exact h.start
  | cons event before ih =>
    rw [← List.singleton_append, Engine.after_append]
    exact ih h.2

theorem finish (h : Guarded runs e events) : (e.after events).SlotFits (openRuns runs events) :=
  h.between (List.append_nil events).symm

end Guarded

/-- Whatever runs are in progress, the act leaves them as they are, and the slot fits throughout. -/
def Act.KeepsSlot (act : Act V σ α) : Prop :=
  ∀ runs e s t, e.SlotFits runs → act e s = some t →
    t.engine = e.after t.events ∧ openRuns runs t.events = runs ∧ Guarded runs e t.events

namespace Act

theorem keepsSlot_of_silent {act : Act V σ α}
    (h : ∀ e s t, act e s = some t → t.engine = e ∧ t.events = []) : act.KeepsSlot := by
  intro runs e s t hfits ht
  obtain ⟨hengine, hevents⟩ := h e s t ht
  rw [hevents]
  exact ⟨hengine, rfl, hfits⟩

theorem KeepsSlot.bind {act : Act V σ α} {next : α → Act V σ β} (hact : act.KeepsSlot)
    (hnext : ∀ value, (next value).KeepsSlot) : (act >>= next).KeepsSlot := by
  intro runs e s t hfits ht
  obtain ⟨first, hfirst, second, hsecond, rfl⟩ := bind_eq_some.1 ht
  obtain ⟨hengine, hclosed, hguarded⟩ := hact runs e s first hfits hfirst
  -- The first act has closed every run it opened, so the second one begins with the same runs in
  -- progress.
  have hmiddle : first.engine.SlotFits runs := by
    rw [hengine, ← hclosed]
    exact hguarded.finish
  obtain ⟨hengine', hclosed', hguarded'⟩ :=
    hnext _ runs first.engine first.state second hmiddle hsecond
  refine ⟨?_, ?_, ?_⟩
  · rw [Turn.events_behind, Engine.after_append, ← hengine]
    exact hengine'
  · rw [Turn.events_behind, openRuns_append, hclosed, hclosed']
  · refine hguarded.append ?_
    rwa [hclosed, ← hengine]

theorem keepsSlot_step {st : Step V} (hinner : st.Inner) :
    (step st : Act V σ (Except Fault Unit)).KeepsSlot := by
  intro runs e s t hfits h
  cases h
  have hruns := hinner.runsAfter runs
  have hslot : (e.apply st).SlotFits runs := hfits.of_executing (Engine.executing_apply hinner e)
  exact ⟨rfl, hruns, hfits, by rwa [hruns]⟩

theorem compositional_keepsSlot : Compositional (V := V) (σ := σ) fun act => act.KeepsSlot where
  reply value := keepsSlot_of_silent fun e s t h => by
    cases h
    exact ⟨rfl, rfl⟩
  engine := keepsSlot_of_silent fun e s t h => by
    cases h
    exact ⟨rfl, rfl⟩
  state := keepsSlot_of_silent fun e s t h => by
    cases h
    exact ⟨rfl, rfl⟩
  modifyState f := keepsSlot_of_silent fun e s t h => by
    cases h
    exact ⟨rfl, rfl⟩
  answered context id reply runs e s t hfits h := by
    cases h
    exact ⟨rfl, rfl, hfits, hfits⟩
  edit operation := keepsSlot_step trivial
  connect parent child := keepsSlot_step trivial
  write context id output := keepsSlot_step trivial
  bind := KeepsSlot.bind

end Act

/-! ## 3. Runs -/

/-- A run takes the slot and hands it back to whom it belonged before. -/
theorem keepsSlot_runFresh (runner : Runner V σ) (limit : Nat) (id : CellId)
    (overrides : FlagOverrides) : (runFresh runner limit id overrides).KeepsSlot := by
  have hkeeps : ∀ id overrides e s t, runFresh runner limit id overrides e s = some t →
      ∀ runs, e.SlotFits runs →
      t.engine = e.after t.events ∧ openRuns runs t.events = runs ∧ Guarded runs e t.events := by
    refine runFresh_induct (fun _ _ _ _ _ _ hfits => ⟨rfl, rfl, hfits⟩) ?_ limit
    intro limit ih id overrides e s cell run _ hrun runs hfits
    have hinner : ∀ id overrides, (runFresh runner limit id overrides).KeepsSlot :=
      fun id overrides runs e s t hfits ht => ih id overrides e s t ht runs hfits
    obtain ⟨hengine, hclosed, hguarded⟩ :=
      Act.compositional_keepsSlot.perform hinner _ (id :: runs) _ _ _ (.beginRun e id runs) hrun
    obtain ⟨last, hlast, hevents, hconcluded⟩ := run.concluded_last id e.executing
    have hinside : run.engine.SlotFits (id :: runs) := by
      rw [hengine, ← hclosed]
      exact hguarded.finish
    have hruns : (Event.step last).runsAfter (id :: runs) = id :: runs := by
      obtain rfl | ⟨output, rfl⟩ := hlast <;> rfl
    have hlastSlot : (run.engine.apply last).SlotFits (id :: runs) := by
      refine hinside.of_executing ?_
      obtain rfl | ⟨output, rfl⟩ := hlast
      · exact .inr (Engine.executing_failRun run.engine id)
      · have hinner : (Step.write ⟨id⟩ id output).Inner := trivial
        exact Engine.executing_apply hinner run.engine
    -- In the end the slot is what it was in the beginning, so it fits the runs around this one.
    have hends : Guarded (id :: runs) run.engine [.step last, .step (.resume e.executing)] :=
      ⟨hinside, by rw [hruns]; exact ⟨hlastSlot, hfits⟩⟩
    rw [hevents, hconcluded]
    refine ⟨?_, ?_, hfits, hguarded.append ?_⟩
    · show _ = (e.beginRun id).after (run.events ++ _)
      rw [Engine.after_append, ← hengine]
      rfl
    · show openRuns (id :: runs) (run.events ++ _) = runs
      rw [openRuns_append, hclosed, openRuns_cons, hruns]
      rfl
    · show Guarded (openRuns (id :: runs) run.events) ((e.beginRun id).after run.events) _
      rwa [hclosed, ← hengine]
  intro runs e s t hfits ht
  exact hkeeps id overrides e s t ht runs hfits

/-! ## 4. Whole histories -/

namespace Runner.History

variable {runner : Runner V σ} {allowed : Engine V → Command V → Prop} {start e : Engine V}
  {events : List (Event V)}

/-- No call leaves a run in progress, and the slot fits at every moment. -/
theorem guarded (h : runner.History allowed start events e) (hstart : start.executing = none) :
    openRuns [] events = [] ∧ Guarded [] start events := by
  induction h with
  | start => exact ⟨rfl, .inl hstart⟩
  | @call events e command limit state t before hallowed ht ih =>
    obtain ⟨hclosed, hguarded⟩ := ih
    have hengine : e = start.after events := before.eq_replay
    have hslot : e.SlotFits [] := by
      rw [hengine, ← hclosed]
      exact hguarded.finish
    obtain ⟨-, hclosed', hguarded'⟩ :=
      Act.compositional_keepsSlot.carryOut (keepsSlot_runFresh runner limit) command
        [] e state t hslot ht
    refine ⟨by rw [openRuns_append, hclosed, hclosed'], hguarded.append ?_⟩
    rwa [hclosed, ← hengine]

/-- **Only the innermost run publishes**, at any moment `now` in the course of the history. The
moments are those between two of its events. -/
theorem single_writer {flags : RunFlags} (h : runner.History allowed (.withFlags flags) events e) :
    e = (Engine.withFlags flags).after events ∧ openRuns [] events = [] ∧
    ∀ before later, events = before ++ later →
      let now := (Engine.withFlags flags).after before
      let runs := openRuns [] before
      (now.executing = none ∨ now.executing = runs.head?) ∧
      (∀ context id output next, now.write context id output = .ok next →
        id = context.cell ∧ runs.head? = some id) ∧
      (runs = [] → now.executing = none ∧ ∀ context id output,
        now.write context id output = .error (.unauthorizedWrite id context.cell)) ∧
      ∀ context id output target executing,
        now.write context id output = .error (.unauthorizedWrite target executing) →
          now.apply (.write context id output) = now := by
  obtain ⟨hclosed, hguarded⟩ := h.guarded rfl
  refine ⟨h.eq_replay, hclosed, fun before later hsplit => ?_⟩
  have hslot := hguarded.between hsplit
  refine ⟨hslot, fun _ _ _ _ hwrite => hslot.of_write hwrite, fun hidle => ?_,
    fun _ _ _ _ _ hwrite => ?_⟩
  · rw [hidle] at hslot
    exact ⟨hslot.elim (fun h => h) fun h => h, hslot.write_idle⟩
  · exact Engine.apply_of_error hwrite

end Runner.History

/-- Cell 0 keeps its context and has cell 1 run. Whichever cell finds a kept context publishes
with it. -/
def keeper : Runner Unit (Option Context) := fun context request state =>
  if request.cell = ⟨0⟩ then .ask (some context) (.execute ⟨1⟩ {}) fun s _ =>
    .done s (.ok (.plain ()))
  else .ask state (.write (state.getD context) (state.getD context).cell (.plain ())) fun s _ =>
    .done s (.ok (.plain ()))

def keepOnce : List (Command Unit) :=
  [.edit (.update ((∅ : Batch).insert ⟨0⟩ (.ofCode "keep") |>.insert ⟨1⟩ (.ofCode "use"))),
    .execute ⟨0⟩ {}]

/-- While cell 1 runs inside the run of cell 0, it can publish for itself, and nobody else can
publish. -/
theorem keeper_single_writer :
    ∃ events e, keeper.session 2 keepOnce (.withFlags {}) none = some (events, e) ∧
    openRuns [] events = [] ∧ openRuns [] (events.take 3) = [⟨1⟩, ⟨0⟩] ∧
    (((Engine.withFlags {}).after (events.take 3)).write ⟨⟨1⟩⟩ ⟨1⟩ (.plain ())).isOk = true ∧
    ∀ context id output next,
      ((Engine.withFlags {}).after (events.take 3)).write context id output = .ok next →
      id = context.cell ∧ id = ⟨1⟩ := by
  obtain ⟨⟨events, e⟩, hsession, hevents⟩ :
      ∃ found, keeper.session 2 keepOnce (.withFlags {}) none = some found ∧
      decide (openRuns [] (found.1.take 3) = [⟨1⟩, ⟨0⟩] ∧
        (((Engine.withFlags {}).after (found.1.take 3)).write ⟨⟨1⟩⟩ ⟨1⟩ (.plain ())).isOk = true) =
          true :=
    (Option.any_eq_true _ _).1 (by decide +kernel)
  obtain ⟨hruns, hown⟩ := of_decide_eq_true hevents
  have hstart : keeper.History (fun _ _ => True) (.withFlags {}) [] (.withFlags {}) := .start
  have hhistory := hstart.append_session (fun _ _ _ => trivial) hsession
  obtain ⟨-, hclosed, hguarded⟩ := hhistory.single_writer
  obtain ⟨-, hwriter, -⟩ := hguarded _ _ (List.take_append_drop 3 events).symm
  refine ⟨events, e, hsession, hclosed, hruns, hown, fun context id output next hwrite => ?_⟩
  obtain ⟨hcontext, hinnermost⟩ := hwriter context id output next hwrite
  rw [hruns] at hinnermost
  exact ⟨hcontext, (Option.some.inj hinnermost).symm⟩

end Notebook
