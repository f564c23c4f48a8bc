import Notebook.Proofs.Engine.Edits
import Notebook.Proofs.Engine.Marks
import Notebook.Proofs.Run.Chronicle

/-!
# What a run has taken is handed back

A run takes the executing slot and marks its cell as running. In between the runner may do
whatever it likes: have further cells run, delete or replace the cell that is running, throw the
notebook away and start anew, or publish with contexts from runs long past. The one thing it may
not do is to mark cells as running by hand. Then

> **the slot belongs to whom it belonged before**, and **no cell is running that was not running
> before**,

whatever the run has come to. A cell that stays marked would be passed over by every later
cascade, and so would all that depends on it.

The end of a run takes the mark off the cell, unless the publication is refused. It is refused if
the cell is gone, and then its mark is gone with it, or if the slot has been freed meanwhile. Only
a new beginning frees the slot, and with a new beginning all marks are gone.
-/

set_option autoImplicit false

namespace Notebook

open Std

variable {V σ α : Type}

/-! ## 1. Marks of running cells -/

namespace Engine

/-- A batch makes no cell running. -/
theorem running_of_update {e : Engine V} {batch : Batch} {c : CellId}
    (h : (e.update batch).bears Cell.running c = true) : e.bears Cell.running c = true := by
  obtain ⟨cell, hcell, hrunning⟩ := (Option.any_eq_true _ _).1 h
  rw [getElem?_update] at hcell
  obtain ⟨r, -, rfl⟩ := Option.map_eq_some_iff.1 hcell
  have hbefore : (e.cellOrNew c).running = true := by
    rw [← running_revise _ r, ← hrunning]
    split <;> rfl
  cases hold : e.cells[c]? with
  | none =>
    rw [cellOrNew, hold] at hbefore
    cases hbefore
  | some old =>
    rw [cellOrNew, hold] at hbefore
    rw [bears_of_cell hold]
    exact hbefore

theorem idle_clear (e : Engine V) : e.clear.Idle := by
  intro c
  simp [bears, clear, withFlags]

theorem idle_restore (e : Engine V) (d : Document) : (e.restore d).Idle := by
  intro c
  rw [bears, getElem?_restore, Option.any_map, Option.any_eq_false]
  intro s _
  simp [Cell.new]

/-! ## 2. One step -/

/-- The slot belongs to whom it belonged before, and no cell is running that was not. -/
structure HandedBack (e e' : Engine V) : Prop where
  slot : e'.executing = e.executing
  running : ∀ c, e'.bears Cell.running c = true → e.bears Cell.running c = true

namespace HandedBack

variable {e e' e'' : Engine V}

theorem refl (e : Engine V) : e.HandedBack e := ⟨rfl, fun _ h => h⟩

theorem trans (h : e.HandedBack e') (h' : e'.HandedBack e'') : e.HandedBack e'' :=
  ⟨h'.slot.trans h.slot, fun c hc => h.running c (h'.running c hc)⟩

theorem update (e : Engine V) (batch : Batch) : e.HandedBack (e.update batch) :=
  ⟨e.executing_update batch, fun _ => running_of_update⟩

theorem invalidate (e : Engine V) (id : CellId) :
    e.HandedBack (e.apply (.edit (.invalidate id))) := by
  obtain h | ⟨cell, hcell, h⟩ := e.apply_invalidate_cases id
  all_goals rw [h]
  · exact .refl e
  · refine ⟨rfl, fun c hc => ?_⟩
    rwa [bears_insert_markStale (fun _ => rfl) hcell] at hc

theorem markDescendantsStale (e : Engine V) (id : CellId) :
    e.HandedBack (e.markDescendantsStale id) := by
  refine ⟨rfl, fun c hc => ?_⟩
  rwa [bears_markDescendantsStale fun _ => rfl] at hc

theorem resetDidRun (e : Engine V) : e.HandedBack e.resetDidRun := by
  refine ⟨rfl, fun c hc => ?_⟩
  rwa [bears_resetDidRun] at hc

/-- A publication takes a mark off, and a refused one does nothing. -/
theorem write (e : Engine V) (context : Context) (id : CellId) (output : Output V) :
    e.HandedBack (e.apply (.write context id output)) := by
  obtain h | ⟨cell, -, -, -, h⟩ := e.apply_write_cases context id output
  all_goals rw [h]
  · exact .refl e
  · refine ⟨rfl, fun c hc => ?_⟩
    rw [bears_publish fun _ => rfl] at hc
    split at hc
    · cases hc
    · exact hc

theorem ofRequest {operation : Edit} (h : operation.OfRequest) (e : Engine V) :
    e.HandedBack (e.apply (.edit operation)) := by
  cases operation with
  | update batch => exact .update e batch
  | invalidate id => exact .invalidate e id
  | markDescendantsStale id => exact .markDescendantsStale e id
  | resetDidRun => exact .resetDidRun e
  | addLinks declared => exact ⟨rfl, fun _ hc => hc⟩
  | dropDeleted => exact ⟨rfl, fun _ hc => hc⟩
  | _ => exact h.elim

end HandedBack

/-- Inside a run the notebook may be thrown away besides. Then the slot is free and no cell is
running. -/
def HandedBackOrReset (e e' : Engine V) : Prop :=
  e.HandedBack e' ∨ e'.executing = none ∧ e'.Idle

theorem HandedBackOrReset.trans {e e' e'' : Engine V} (h : e.HandedBackOrReset e')
    (h' : e'.HandedBackOrReset e'') : e.HandedBackOrReset e'' := by
  cases h' with
  | inr hreset => exact .inr hreset
  | inl hlater =>
    cases h with
    | inl hback => exact .inl (hback.trans hlater)
    | inr hreset => exact .inr ⟨hlater.slot.trans hreset.1, hreset.2.of_running hlater.running⟩

end Engine

/-- Anything but marking a cell as running by hand. -/
def Command.Honest : Command V → Prop
  | .edit (.setRunning _) => False
  | _ => True

theorem Engine.HandedBackOrReset.edit {operation : Edit}
    (h : (Command.edit (V := V) operation).Honest) (e : Engine V) :
    e.HandedBackOrReset (e.apply (.edit operation)) := by
  cases operation with
  | clear => exact .inr ⟨rfl, e.idle_clear⟩
  | restore document => exact .inr ⟨e.clear.executing_update _, e.idle_restore document⟩
  | setRunning id => exact h.elim
  | overrideFlags overrides => exact .inl ⟨rfl, fun _ hc => hc⟩
  | addLink tag cell makeCurrent => exact .inl ⟨rfl, fun _ hc => hc⟩
  | removeLinks cell => exact .inl ⟨rfl, fun _ hc => hc⟩
  | _ =>
    refine .inl (.ofRequest ?_ e)
    trivial

/-! ## 3. Operations -/

/-- The engine before the act is related to the engine after it. -/
def Act.Relates (R : Engine V → Engine V → Prop) (act : Act V σ α) : Prop :=
  ∀ e s t, act e s = some t → R e t.engine

namespace Act

variable {R R' : Engine V → Engine V → Prop}

theorem Relates.weaken {act : Act V σ α} (h : act.Relates R) (hweaken : ∀ e e', R e e' → R' e e') :
    act.Relates R' := by
  intro e s t ht
  exact hweaken e t.engine (h e s t ht)

theorem relates_step {st : Step V} (h : ∀ e, R e (e.apply st)) :
    (Act.step st : Act V σ _).Relates R := by
  intro e s t ht
  cases ht
  exact h e

theorem relates_note {event : Event V} (h : ∀ e, R e e) :
    (Act.note event : Act V σ _).Relates R := by
  intro e s t ht
  cases ht
  exact h e

/-- A preorder is composed. -/
theorem composed_relates (hrefl : ∀ e, R e e) (htrans : ∀ {e e' e''}, R e e' → R e' e'' → R e e'') :
    Composed (V := V) (σ := σ) fun act => act.Relates R where
  reply value e s t ht := by
    cases ht
    exact hrefl e
  engine e s t ht := by
    cases ht
    exact hrefl e
  state e s t ht := by
    cases ht
    exact hrefl e
  modifyState f e s t ht := by
    cases ht
    exact hrefl e
  bind hact hnext e s t ht := by
    obtain ⟨first, hfirst, second, hsecond, rfl⟩ := bind_eq_some.1 ht
    exact htrans (hact e s first hfirst) (hnext _ _ _ second hsecond)

theorem composed_handedBack : Composed (V := V) (σ := σ) fun act => act.Relates Engine.HandedBack :=
  composed_relates Engine.HandedBack.refl Engine.HandedBack.trans

theorem composed_handedBackOrReset :
    Composed (V := V) (σ := σ) fun act => act.Relates Engine.HandedBackOrReset :=
  composed_relates (fun e => .inl (.refl e)) Engine.HandedBackOrReset.trans

end Act

/-- The command may have cells run. -/
def Command.MayRun : Command V → Prop
  | .read _ _ | .execute _ _ | .cascade _ | .request _ => True
  | _ => False

section

variable {fresh : FreshRun V σ}
  (hfresh : ∀ id overrides, (fresh id overrides).Relates Engine.HandedBack)

include hfresh

/-- What has cells run hands back what they hand back. -/
theorem handedBack_carryOut {command : Command V} (hruns : command.MayRun) :
    (carryOut fresh command).Relates Engine.HandedBack := by
  have hcomposed := Act.composed_handedBack (V := V) (σ := σ)
  cases command with
  | read context id =>
    refine hcomposed.readWith hfresh (Act.relates_step ?_) fun reply => Act.relates_note .refl
    intro e
    exact ⟨rfl, fun _ hc => hc⟩
  | execute id overrides => exact hcomposed.executeWith hfresh id overrides
  | cascade id => exact hcomposed.cascadeWith hfresh id
  | request request =>
    refine hcomposed.requestWith hfresh ?_ request
    intro operation hoperation
    exact Act.relates_step (.ofRequest hoperation)
  | _ => exact hruns.elim

theorem handedBackOrReset_carryOut {command : Command V} (hhonest : command.Honest) :
    (carryOut fresh command).Relates Engine.HandedBackOrReset := by
  cases command with
  | edit operation => exact Act.relates_step (.edit hhonest)
  | inspect => exact Act.composed_handedBackOrReset.engine
  | write context id output => exact Act.relates_step fun e => .inl (.write e context id output)
  | _ =>
    refine (handedBack_carryOut hfresh ?_).weaken fun _ _ => .inl
    trivial

end

/-! ## 4. Runs -/

/-- The end of a run takes the mark off the cell, unless the slot has been freed. -/
theorem Engine.running_of_last {e : Engine V} {id c : CellId} {last : Step V}
    (hlast : last = .failRun id ∨ ∃ output, last = .write ⟨id⟩ id output)
    (hc : (e.apply last).bears Cell.running c = true) :
    e.bears Cell.running c = true ∧ (e.executing = some id → c ≠ id) := by
  cases hlast with
  | inl hfail =>
    subst hfail
    have hc : (e.failRun id).bears Cell.running c = true := hc
    rw [bears_failRun] at hc
    split at hc
    · simp [bears, Cell.fail] at hc
    · rename_i hne
      exact ⟨hc, fun _ => hne⟩
  | inr hwrite =>
    obtain ⟨output, rfl⟩ := hwrite
    refine ⟨(HandedBack.write e ⟨id⟩ id output).running c hc, ?_⟩
    intro hslot hid
    subst hid
    cases hcell : e.cells[c]? with
    | none =>
      -- There is no cell that could bear the mark.
      have hbefore := (HandedBack.write e ⟨c⟩ c output).running c hc
      rw [bears, hcell] at hbefore
      cases hbefore
    | some cell =>
      rw [apply_write_eq_publish hslot hcell, bears_publish fun _ => rfl, if_pos rfl] at hc
      cases hc

/-- **A run hands back what it has taken.** -/
theorem Runner.Asks.handedBack_runFresh {runner : Runner V σ} (hr : runner.Asks Command.Honest)
    (limit : Nat) (id : CellId) (overrides : FlagOverrides) :
    (runFresh runner limit id overrides).Relates Engine.HandedBack := by
  revert id overrides
  refine runFresh_induct (fun _ _ e _ _ => .refl e) ?_ limit
  intro limit ih id overrides e s cell run _ hrun
  have hprogram := hr ⟨id, cell.runnableCode, e.flags.override overrides⟩ s
  have hinside : (e.beginRun id).HandedBackOrReset run.engine :=
    Act.composed_handedBackOrReset.perform (fun _ => handedBackOrReset_carryOut ih)
      hprogram _ _ _ hrun
  obtain ⟨last, hlast, -, hend⟩ := run.concluded_last id e.executing
  rw [hend]
  refine ⟨rfl, ?_⟩
  intro c hc
  obtain ⟨hrunning, hother⟩ := Engine.running_of_last hlast hc
  cases hinside with
  | inl hback =>
    have hbegun := hback.running c hrunning
    rwa [Engine.bears_beginRun, if_neg (hother hback.slot)] at hbegun
  | inr hreset =>
    rw [hreset.2 c] at hrunning
    cases hrunning

/-- A runner that only reads marks nothing by hand. -/
theorem Runner.OnlyReads.honest {runner : Runner V σ} (hr : runner.OnlyReads) :
    runner.Asks Command.Honest := by
  intro request state
  refine (hr request state).asks.imp ?_
  intro command hlooks
  cases command with
  | edit operation => exact hlooks.elim
  | _ => trivial

/-- **No run leaks its running state.** Whatever engine it is called with, and whatever comes of
it, a call that may have cells run leaves the slot to whom it belonged, and no cell is running
that was not running before. -/
theorem Runner.Asks.hands_back {runner : Runner V σ} (hr : runner.Asks Command.Honest)
    {command : Command V} (hruns : command.MayRun) {limit : Nat} {e : Engine V} {s : σ}
    {t : Turn V σ command.Reply} (ht : carryOut (runFresh runner limit) command e s = some t) :
    t.engine.executing = e.executing ∧
      ∀ c, t.engine.bears Cell.running c = true → e.bears Cell.running c = true := by
  have hback : e.HandedBack t.engine :=
    handedBack_carryOut (hr.handedBack_runFresh limit) hruns e s t ht
  exact ⟨hback.slot, hback.running⟩

/-- Cell 0 has cell 1 run. Cell 1 throws the notebook away and makes a new one, and both end their
runs. -/
def renewer : Runner Unit Unit := fun _ request state =>
  if request.cell = ⟨0⟩ then .ask state (.execute ⟨1⟩ {}) fun s _ => .done s (.ok (.plain ()))
  else .ask state (.edit .clear) fun s _ =>
    .ask s (.edit (.update ((∅ : Batch).insert ⟨0⟩ (.ofCode "again")
        |>.insert ⟨1⟩ (.ofCode "again")))) fun s _ =>
      .done s (.ok (.plain ()))

theorem renewer_honest : renewer.Asks Command.Honest := by
  intro request state
  rw [renewer]
  split
  · exact .ask trivial fun s _ => .done s _
  · exact .ask trivial fun s _ => .ask trivial fun s _ => .done s _

/-- The publication of cell 1 is refused, and still no run is left in progress. -/
theorem renewer_hands_back : ∃ t, renewer.execute 2 ⟨0⟩ {} twoCells () = some t ∧
    t.reply = .ok (.plain ()) ∧ t.engine.cachedOutput ⟨1⟩ = .error (.notYetComputed ⟨1⟩) ∧
    t.engine.executing = none ∧ t.engine.Idle := by
  obtain ⟨t, ht, hfound⟩ : ∃ t, renewer.execute 2 ⟨0⟩ {} twoCells () = some t ∧
      decide (t.reply = .ok (.plain ()) ∧
        t.engine.cachedOutput ⟨1⟩ = .error (.notYetComputed ⟨1⟩)) = true :=
    (Option.any_eq_true _ _).1 (by decide +kernel)
  obtain ⟨hreply, hrefused⟩ := of_decide_eq_true hfound
  have hruns : (Command.execute (V := Unit) ⟨0⟩ {}).MayRun := trivial
  obtain ⟨hslot, hrunning⟩ := renewer_honest.hands_back hruns ht
  have hidle : twoCells.Idle := by
    refine Engine.Idle.of_running ?_ (Engine.HandedBack.update Engine.new _).running
    exact Engine.new.idle_clear
  exact ⟨t, ht, hreply, hrefused, hslot.trans (Engine.executing_update _ _),
    hidle.of_running hrunning⟩

end Notebook
