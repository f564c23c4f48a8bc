import Notebook.Proofs.Run.Repetition

/-!
# What a cascade reports

A cascade visits the descendants of a cell, executes those whose turn it is, and reports those
whose execution failed. Its runs are more than its visits, since a visited cell has others run
inside its own run. For a runner that fails as soon as one of its reads fails

> **every failure is behind a reported cell**: a run that failed was made by the visit of a cell
> that is reported, and if nothing is reported then no run failed.

A cell that fails inside the run of another is not reported itself. It has run by then, and when
the walk comes to it, it is skipped.
-/

set_option autoImplicit false

namespace Notebook

open Std

variable {V σ : Type}

/-! ## 1. Runners that heed their reads -/

/-- The program asks for nothing but reads with the given context, and looks at the engine. It
ends with a failure if a read has failed. -/
inductive Program.Heeds (context : Context) :
    Bool → Program V σ (Except RunFailure (Output V)) → Prop
  | done {failed : Bool} (state : σ) (outcome : Except RunFailure (Output V))
      (h : outcome.isOk = true → failed = false) : Heeds context failed (.done state outcome)
  | inspect {failed : Bool} {state : σ}
      {next : σ → (Command.inspect : Command V).Reply → Program V σ (Except RunFailure (Output V))}
      (h : ∀ s e, Heeds context failed (next s e)) : Heeds context failed (.ask state .inspect next)
  | read {failed : Bool} {state : σ} {id : CellId}
      {next : σ → (Command.read context id : Command V).Reply →
        Program V σ (Except RunFailure (Output V))}
      (h : ∀ (s : σ) (reply : Except Fault (Output V)),
        Heeds context (failed || !reply.isOk) (next s reply)) :
      Heeds context failed (.ask state (.read context id) next)

/-- In each run the runner only reads, with the context of the run, and fails if a read fails. -/
def Runner.Heeds (runner : Runner V σ) : Prop :=
  ∀ request state, (runner ⟨request.cell⟩ request state).Heeds ⟨request.cell⟩ false

theorem Program.Heeds.onlyReads {context : Context} {failed : Bool}
    {program : Program V σ (Except RunFailure (Output V))} (h : program.Heeds context failed) :
    program.OnlyReads context := by
  induction h with
  | done state outcome _ => exact .done state outcome
  | inspect _ ih => exact .inspect ih
  | read _ ih => exact .read ih

theorem Runner.Heeds.onlyReads {runner : Runner V σ} (hr : runner.Heeds) :
    runner.OnlyReads := fun request state =>
  (hr request state).onlyReads

/-! ## 2. No failure behind a success -/

def Unfailing (events : List (Event V)) : Prop :=
  ∀ id, .step (.failRun id) ∉ events

theorem unfailing_nil : Unfailing ([] : List (Event V)) := fun _ h => by cases h

theorem unfailing_append {events later : List (Event V)} :
    Unfailing (events ++ later) ↔ Unfailing events ∧ Unfailing later := by
  simp only [Unfailing, List.mem_append, not_or, forall_and]

theorem unfailing_cons {event : Event V} {events : List (Event V)} :
    Unfailing (event :: events) ↔ (∀ id, event ≠ .step (.failRun id)) ∧ Unfailing events := by
  simp only [Unfailing, List.mem_cons, not_or, forall_and, ne_eq, eq_comm]

/-- Whatever cell is run, no run failed on the way to an output. -/
def FreshRun.Unfailing (fresh : FreshRun V σ) : Prop :=
  ∀ id overrides e s t, fresh id overrides e s = some t → t.reply.isOk = true →
    Notebook.Unfailing t.events

section

variable {fresh : FreshRun V σ}

theorem unfailing_executeWith (h : FreshRun.Unfailing fresh) :
    FreshRun.Unfailing (executeWith fresh) := by
  intro id overrides e s t ht hok
  obtain ⟨-, rfl⟩ | ⟨cell, -, -, rfl⟩ | ⟨cell, -, -, ht⟩ := executeWith_cases ht
  · exact unfailing_nil
  · exact unfailing_nil
  · exact h id overrides e s t ht hok

theorem unfailing_readWith (h : FreshRun.Unfailing fresh) {context : Context} {id : CellId}
    {e : Engine V} {s : σ} {t : Turn V σ (Except Fault (Output V))}
    (ht : readWith fresh context id e s = some t) (hok : t.reply.isOk = true) :
    Unfailing t.events := by
  obtain ⟨-, rfl⟩ | ⟨-, rfl⟩ | ⟨run, -, -, hrun, rfl⟩ := readWith_cases ht
  · cases hok
  · cases hok
  · have hrunOk : run.reply.isOk = true := by
      cases hreply : run.reply with
      | ok output => rfl
      | error fault => simp [hreply, Except.map, Except.isOk, Except.toBool] at hok
    have hunfailing := unfailing_executeWith h id {} _ _ _ hrun hrunOk
    simp [unfailing_cons, unfailing_append, unfailing_nil, hunfailing]

/-- A program that ends with an output has seen no read fail, and none of the runs that it caused
failed. -/
theorem unfailing_perform (h : FreshRun.Unfailing fresh) {context : Context} {failed : Bool}
    {program : Program V σ (Except RunFailure (Output V))} (hprogram : program.Heeds context failed)
    {e : Engine V} {s : σ} {t : Turn V σ (Except RunFailure (Output V))}
    (ht : perform fresh program e s = some t) (hok : t.reply.isOk = true) :
    failed = false ∧ Unfailing t.events := by
  induction hprogram generalizing e s t with
  | done state outcome hdone =>
    rw [perform_done] at ht
    cases ht
    exact ⟨hdone hok, unfailing_nil⟩
  | inspect _ ih =>
    rw [perform_inspect] at ht
    exact ih _ _ ht hok
  | read _ ih =>
    rw [perform_read] at ht
    obtain ⟨first, hfirst, ht⟩ := Option.bind_eq_some_iff.1 ht
    obtain ⟨second, hsecond, rfl⟩ := Option.map_eq_some_iff.1 ht
    obtain ⟨hfailed, hunfailing⟩ := ih _ _ hsecond hok
    -- The rest has seen no failure, so this read has not failed either.
    rw [Bool.or_eq_false_iff, Bool.not_eq_false'] at hfailed
    exact ⟨hfailed.1, unfailing_append.2 ⟨unfailing_readWith h hfirst hfailed.2, hunfailing⟩⟩

end

/-- **No failure is behind a success**, however deep runs nest. -/
theorem unfailing_runFresh {runner : Runner V σ} (hr : runner.Heeds) (limit : Nat) :
    FreshRun.Unfailing (runFresh runner limit) := by
  induction limit with
  | zero =>
    intro id overrides e s t ht hok
    obtain ⟨fault, rfl⟩ | ⟨deeper, _, _, _, hlimit, -⟩ := hr.onlyReads.runFresh_cases ht
    · exact unfailing_nil
    · cases hlimit
  | succ limit ih =>
    intro id overrides e s t ht hok
    obtain ⟨fault, rfl⟩ | ⟨deeper, cell, run, _, hlimit, -, -, hrun, -, -, -, hend⟩ :=
      hr.onlyReads.runFresh_cases ht
    · exact unfailing_nil
    obtain ⟨output, hreply, rfl⟩ | ⟨failure, -, rfl⟩ := hend
    · cases hlimit
      obtain ⟨-, hunfailing⟩ := unfailing_perform ih (hr ⟨id, _, _⟩ s) hrun (by rw [hreply]; rfl)
      simp [unfailing_cons, unfailing_append, unfailing_nil, hunfailing]
    · cases hok

/-- An execution that fails was refused, or the run of the cell has failed. -/
theorem Runner.OnlyReads.failRun_of_execute {runner : Runner V σ} (hr : runner.OnlyReads)
    {limit : Nat} {id : CellId} {overrides : FlagOverrides} {e : Engine V} {s : σ}
    {t : Turn V σ (Except Fault (Output V))} (ht : runner.execute limit id overrides e s = some t)
    (herror : t.reply.isOk = false) : t.events = [] ∨ .step (.failRun id) ∈ t.events := by
  obtain ⟨-, rfl⟩ | ⟨cell, -, -, rfl⟩ | ⟨cell, -, -, hrun⟩ := executeWith_cases ht
  · exact .inl rfl
  · exact .inl rfl
  · obtain ⟨fault, rfl⟩ | ⟨_, _, run, _, -, -, -, -, -, -, -, hend⟩ := hr.runFresh_cases hrun
    · exact .inl rfl
    obtain ⟨output, -, rfl⟩ | ⟨failure, -, rfl⟩ := hend
    · cases herror
    · simp

/-! ## 3. Visits -/

/-- One execution of a cascade: the cell, what was answered, and what was noted. -/
structure Visit (V : Type) where
  cell : CellId
  reply : Except Fault (Output V)
  events : List (Event V)

def Visit.failed (v : Visit V) : Bool :=
  !v.reply.isOk

/-- The reply of a cascade that has visited these cells. -/
def Visit.report (visits : List (Visit V)) : Except Fault Unit :=
  if (visits.filter Visit.failed).isEmpty then .ok ()
  else .error (.cascadeFailure ((visits.filter Visit.failed).map Visit.cell))

theorem Engine.exists_cell_of_wantsUpdate {e : Engine V} {id : CellId}
    (h : e.wantsUpdate id = true) :
    ∃ cell, e.cells[id]? = some cell ∧ cell.didRun = false ∧ cell.autoUpdate = true := by
  rw [wantsUpdate] at h
  cases hcell : e.cells[id]? with
  | none => simp [hcell] at h
  | some cell =>
    simp only [hcell, Bool.and_eq_true, Bool.not_eq_true'] at h
    exact ⟨cell, rfl, h.1.2, h.2⟩

/-- The visits of a walk are executions of cells whose turn it is, in the order of the walk. -/
theorem visits_of_visitWith {fresh : FreshRun V σ} (hframe : FreshRun.Framed fresh)
    {ids : List CellId} {e : Engine V} {s : σ} {t : Turn V σ (List CellId)}
    (ht : visitWith fresh ids e s = some t) :
    ∃ visits : List (Visit V), t.events = visits.flatMap Visit.events ∧
      (visits.map Visit.cell).Sublist ids ∧ t.reply = (visits.filter Visit.failed).map Visit.cell ∧
      ∀ v ∈ visits, ∃ before state turn, Engine.Frame e before ∧ before.wantsUpdate v.cell = true ∧
        executeWith fresh v.cell {} before state = some turn ∧
          v = ⟨v.cell, turn.reply, turn.events⟩ := by
  induction ids generalizing e s t with
  | nil =>
    cases ht
    exact ⟨[], rfl, .slnil, rfl, fun v hv => by cases hv⟩
  | cons id ids ih =>
    rw [visitWith_cons] at ht
    split at ht
    · rename_i hturn
      obtain ⟨first, hfirst, ht⟩ := Option.bind_eq_some_iff.1 ht
      obtain ⟨rest, hrest, rfl⟩ := Option.map_eq_some_iff.1 ht
      obtain ⟨visits, hevents, hids, hreply, hvisits⟩ := ih hrest
      refine ⟨⟨id, first.reply, first.events⟩ :: visits, ?_, hids.cons_cons id, ?_, ?_⟩
      · rw [List.flatMap_cons, ← hevents]
      · rw [List.filter_cons]
        cases hfirstReply : first.reply with
        | ok output => exact hreply
        | error fault => exact congrArg (id :: ·) hreply
      · intro v hv
        rcases List.mem_cons.1 hv with rfl | hv
        · exact ⟨e, s, first, .refl e, hturn, hfirst, rfl⟩
        · obtain ⟨before, state, turn, hbefore, hlater⟩ := hvisits v hv
          exact ⟨before, state, turn,
            (framed_executeWith hframe id {} e s first hfirst).trans hbefore, hlater⟩
    · obtain ⟨visits, hevents, hids, hreply, hvisits⟩ := ih ht
      exact ⟨visits, hevents, hids.cons id, hreply, hvisits⟩

/-- **Every failure is behind a reported cell.** What is noted of a cascade is what its visits
have noted. They are made to distinct cells that update themselves, nearest first, and those that
failed are reported. A visit that did not fail has caused no failure, and one that did was
refused, or the run of its cell has failed. -/
theorem Runner.Heeds.cascade_report {runner : Runner V σ} (hr : runner.Heeds) {limit : Nat}
    {id : CellId} {e : Engine V} {s : σ} {t : Turn V σ (Except Fault Unit)}
    (ht : runner.cascade limit id e s = some t) :
    ∃ visits : List (Visit V), t.events = visits.flatMap Visit.events ∧
      t.reply = Visit.report visits ∧
      (visits.map Visit.cell).Sublist (e.graph.descendantOrder id) ∧ (visits.map Visit.cell).Nodup ∧
      ∀ v ∈ visits, (∃ cell, e.cells[v.cell]? = some cell ∧ cell.autoUpdate = true) ∧
        (v.failed = false → Unfailing v.events) ∧
        (v.failed = true → v.events = [] ∨ .step (.failRun v.cell) ∈ v.events) := by
  rw [cascade, cascadeWith_apply] at ht
  obtain ⟨walk, hwalk, rfl⟩ := Option.map_eq_some_iff.1 ht
  obtain ⟨visits, hevents, hids, hreply, hvisits⟩ :=
    visits_of_visitWith (framed_runFresh hr.onlyReads limit) hwalk
  refine ⟨visits, hevents, ?_, hids, hids.nodup (Graph.nodup_descendantOrder _ id), fun v hv => ?_⟩
  · dsimp only
    rw [Visit.report, hreply, List.isEmpty_map]
  · obtain ⟨before, state, turn, hbefore, hwants, hturn, hv⟩ := hvisits v hv
    rw [hv]
    refine ⟨?_, fun hok => ?_, fun herror => hr.onlyReads.failRun_of_execute hturn ?_⟩
    · obtain ⟨cell', hcell', -, hauto⟩ := Engine.exists_cell_of_wantsUpdate hwants
      obtain ⟨cell, hcell, hsame⟩ := Engine.exists_cell_of_told (hbefore.told v.cell).symm hcell'
      exact ⟨cell, hcell, by rw [Cell.autoUpdate_eq_of_told hsame, hauto]⟩
    · refine unfailing_executeWith (unfailing_runFresh hr limit) v.cell
        {} before state turn hturn ?_
      simpa [Visit.failed] using hok
    · simpa [Visit.failed] using herror

/-- **A cascade that reports nothing** has caused no failure. -/
theorem Runner.Heeds.unfailing_cascade {runner : Runner V σ} (hr : runner.Heeds) {limit : Nat}
    {id : CellId} {e : Engine V} {s : σ} {t : Turn V σ (Except Fault Unit)}
    (ht : runner.cascade limit id e s = some t) (hok : t.reply = .ok ()) : Unfailing t.events := by
  obtain ⟨visits, hevents, hreport, -, -, hvisits⟩ := hr.cascade_report ht
  have hnone : visits.filter Visit.failed = [] := by
    rw [hok, Visit.report] at hreport
    split at hreport
    · rename_i hnone
      exact List.isEmpty_iff.1 hnone
    · cases hreport
  intro c hc
  rw [hevents] at hc
  obtain ⟨v, hv, hc⟩ := List.mem_flatMap.1 hc
  have hgood : v.failed = false := by
    have hbad := List.filter_eq_nil_iff.1 hnone v hv
    simpa using hbad
  exact (hvisits v hv).2.1 hgood c hc

/-! ## 4. A failure that is not reported itself -/

theorem sumReads_heeds (context : Context) (total : Nat) (ids : List CellId) :
    (sumReads context total ids).Heeds context false := by
  induction ids generalizing total with
  | nil => exact .done () _ fun _ => rfl
  | cons id ids ih =>
    refine .read fun _ reply => ?_
    rcases reply with fault | value | entries
    · exact .done () _ fun hok => by cases hok
    · exact ih (total + value)
    · exact ih total

theorem scripted_heeds : scripted.Heeds := by
  intro request state
  rw [scripted]
  split
  · exact .done () _ fun hok => by cases hok
  · exact sumReads_heeds _ _ _

/-- Cells 1 and 2, with the given codes, update themselves. Both declare cell 0, and cell 1
declares cell 2. -/
def siblings (first second : String) : Batch :=
  (∅ : Batch).insert ⟨0⟩ (.ofCode "a")
    |>.insert ⟨1⟩
      ((((Revision.ofCode first).withInput ⟨0⟩ []).withInput ⟨2⟩ []).withAutoUpdate true)
    |>.insert ⟨2⟩ (((Revision.ofCode second).withInput ⟨0⟩ []).withAutoUpdate true)

/-- Cell 2 fails inside the run of cell 1, and only cell 1 is reported. -/
example :
    ((scripted.session 3 [.edit (.update (siblings "read 2" "fail")), .execute ⟨0⟩ {}]
        .new ()).any fun found =>
      (scripted.cascade 3 ⟨0⟩ found.2 ()).any fun t =>
        decide (t.reply = .error (.cascadeFailure [⟨1⟩]) ∧ begun t.events = [⟨1⟩, ⟨2⟩] ∧
          found.2.graph.descendantOrder ⟨0⟩ = [⟨1⟩, ⟨2⟩])) = true := by
  decide +kernel

end Notebook
