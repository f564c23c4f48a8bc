import Notebook.Proofs.Engine.Edits
import Notebook.Proofs.Run.Chronicle
import Notebook.Proofs.Run.Slot

/-!
# Which code a good output belongs to

With runners that only read, an output is published at the end of a run and at no other time, so
it is what the runner came to when it was handed the code that the cell was told when the run
began. As long as the output is good the cell keeps its persistent code, since a batch that
changes it drops the output. The display code may change. Hence

> **a good output belongs to the persistent code of its cell**, and to the code that would run
> now, unless the cell has no persistent code and was told another display code since.

Nothing is assumed of what is asked from outside. A context that was kept publishes nothing
between the runs.
-/

set_option autoImplicit false

namespace Notebook

open Std

variable {V σ : Type}

/-! ## 1. One step -/

namespace Engine

variable {e : Engine V} {c : CellId}

/-- A cell that is fresh after a step that tells it nothing, and that publishes nothing for it. -/
theorem fresh_of_wasFresh {e' : Engine V} (hfresh : WasFresh e e' c) (htold : e'.told c = e.told c)
    {cell' : Cell V} (hcell' : e'.cells[c]? = some cell') (hstale : cell'.stale = false) :
    ∃ cell, e.cells[c]? = some cell ∧ cell.stale = false ∧ cell.output = cell'.output ∧
      cell.persistentCode = cell'.persistentCode := by
  obtain ⟨cell, hcell, hold, houtput⟩ := hfresh cell' hcell' hstale
  refine ⟨cell, hcell, hold, houtput, ?_⟩
  rw [told_eq_some_of_cell hcell, told_eq_some_of_cell hcell', Option.some_inj] at htold
  exact Cell.persistentCode_eq_of_told htold.symm

theorem fresh_of_silent {operation : Edit} (hsilent : operation.Silent) {cell' : Cell V}
    (hcell' : (e.apply (.edit operation)).cells[c]? = some cell') (hstale : cell'.stale = false) :
    ∃ cell, e.cells[c]? = some cell ∧ cell.stale = false ∧ cell.output = cell'.output ∧
      cell.persistentCode = cell'.persistentCode :=
  fresh_of_wasFresh (wasFresh_of_silent hsilent e c)
    ((apply_of_silent hsilent e).2.2 c) hcell' hstale

/-- **A cell that is fresh after a step** was fresh before, with the same output and the same
persistent code, or the output has just been published for it. -/
theorem fresh_of_apply {s : Step V} {cell' : Cell V} (hcell' : (e.apply s).cells[c]? = some cell')
    (hstale : cell'.stale = false) :
    (∃ cell, e.cells[c]? = some cell ∧ cell.stale = false ∧ cell.output = cell'.output ∧
      cell.persistentCode = cell'.persistentCode) ∨
    ∃ context output next, s = .write context c output ∧ e.write context c output = .ok next ∧
      cell'.output = some output := by
  cases s with
  | edit operation =>
    refine .inl ?_
    cases operation with
    | update batch =>
      obtain ⟨old, -, hold, -, -, hfresh, hcode, houtput, -, -⟩ := fresh_of_update hcell' hstale
      exact ⟨old, hold, hfresh, houtput.symm, hcode.symm⟩
    | clear => exact absurd hcell' (by simp [apply, step, edit, clear, withFlags])
    | restore document =>
      rw [(stale_restore hcell').1] at hstale
      cases hstale
    | _ => exact fresh_of_silent (by trivial) hcell' hstale
  | beginRun id =>
    exact .inl (fresh_of_wasFresh (e.wasFresh_beginRun id c) (e.told_beginRun id c) hcell' hstale)
  | connect parent child =>
    exact .inl (fresh_of_wasFresh (wasFresh_of_cells rfl c) rfl hcell' hstale)
  | write context id output =>
    by_cases hc : c = id
    · subst hc
      obtain h | ⟨cell, hcell, hslot, hcontext, h⟩ := e.apply_write_cases context c output
      all_goals rw [h] at hcell'
      · exact .inl ⟨cell', hcell', hstale, rfl, rfl⟩
      · have hwrite : e.write context c output = .ok (e.publish c cell output) := by
          rw [write, if_pos ⟨hcontext, hslot⟩, hcell]
        exact .inr ⟨context, output, _, rfl, hwrite, output_of_publish hcell' hstale⟩
    · exact .inl (fresh_of_wasFresh (e.wasFresh_apply_write hc output)
        (e.told_apply_write context id output c) hcell' hstale)
  | failRun id =>
    exact .inl (fresh_of_wasFresh (e.wasFresh_failRun id c) (e.told_failRun id c) hcell' hstale)
  | resume slot => exact .inl (fresh_of_wasFresh (wasFresh_of_cells rfl c) rfl hcell' hstale)

end Engine

/-! ## 2. Publications -/

/-- In some run the runner was handed the request, in the engine at hand, and came to
the output with these notes. -/
def Runner.Returned (runner : Runner V σ) (request : RunRequest) (e : Engine V)
    (events : List (Event V)) (output : Output V) : Prop :=
  ∃ limit state run, perform (runFresh runner limit) (runner ⟨request.cell⟩ request state) e state =
    some run ∧ run.events = events ∧ run.reply = .ok output

/-- An output that is published is what the run of its cell has come to. The run began with the
cell as it was told by then, and nobody has told it anything since. -/
def Law.publications (runner : Runner V σ) : Law V
  | e, before, .step (.write context id output), _ =>
    ∀ next, (e.after before).write context id output = .ok next →
      ∃ earlier during cell overrides, before = earlier ++ .step (.beginRun id) :: during ∧
        (e.after earlier).cells[id]? = some cell ∧ (e.after before).told id = some cell.told ∧
        runner.Returned ⟨id, cell.runnableCode, (e.after earlier).flags.override overrides⟩
          ((e.after earlier).beginRun id) during output
  | _, _, _, _ => True

namespace Law

variable {runner : Runner V σ}

theorem lasting_publications : (publications runner).Lasting where
  earlier e first before event behind h := by
    cases event with
    | step s =>
      cases s with
      | write context id output =>
        intro next hnext
        rw [Engine.after_append] at hnext
        obtain ⟨earlier, during, cell, overrides, rfl, hcell, htold, hreturned⟩ := h next hnext
        refine ⟨first ++ earlier, during, cell, overrides, by rw [List.append_assoc], ?_, ?_, ?_⟩
        all_goals rwa [Engine.after_append]
      | _ => trivial
    | _ => trivial
  later e before event behind last h := by
    cases event with
    | step s => cases s <;> exact h
    | _ => trivial

theorem sequential_publications :
    Act.Sequential (V := V) (σ := σ) fun act => act.Obeys (publications runner) where
  toComposed := lasting_publications.composed
  edit _ := lasting_publications.obeys_step fun _ => trivial

theorem obeys_publications_of_looks {fresh : FreshRun V σ}
    (hfresh : fresh.Obeys (publications runner)) {command : Command V} (hlooks : command.Looks) :
    (carryOut fresh command).Obeys (publications runner) :=
  lasting_publications.composed.looks hfresh
    (fun _ _ => lasting_publications.obeys_step fun _ => trivial)
    (fun _ _ _ => lasting_publications.obeys_answered fun _ => trivial) hlooks

theorem governs_publications (hr : runner.OnlyReads) :
    (publications runner).Governs runner Command.Looks where
  toLasting := lasting_publications
  asks request state := (hr request state).asks
  command _ hfresh _ hlooks := obeys_publications_of_looks hfresh hlooks
  beginRun _ _ := trivial
  failRun _ _ := trivial
  resume _ _ := trivial
  write limit id overrides e s cell run output hcell hrun hreply := by
    have hframe := frame_of_perform (framed_runFresh hr limit)
      (hr.programOf id overrides e s cell) hrun
    have hengine := Act.compositional_faithful.perform (faithful_runFresh runner limit) _ _ _ _ hrun
    -- A runner that only reads tells no cell anything, so the cell is told what it
    -- was told when its run began.
    intro next _
    refine ⟨[], run.events, cell, overrides, rfl, hcell, ?_, limit, s, run, hrun, rfl, hreply⟩
    have hbefore : e.after (.step (.beginRun id) :: run.events) = run.engine := hengine.symm
    rw [hbefore, hframe.told, Engine.told_beginRun, Engine.told_eq_some_of_cell hcell]

end Law

/-- Between the runs nothing is published, whatever context is used. -/
theorem Runner.History.obeys_publications {runner : Runner V σ} (hr : runner.OnlyReads)
    {allowed : Engine V → Command V → Prop} {flags : RunFlags} {events : List (Event V)}
    {e : Engine V} (h : runner.History allowed (.withFlags flags) events e) :
    (Law.publications runner).Holds (.withFlags flags) events := by
  refine h.obeys Law.lasting_publications fun e command limit s t before hbefore _ ht => ?_
  have hfresh := (Law.governs_publications hr).runFresh limit
  have hsequential : Act.Sequential fun act => act.Obeys (Law.publications runner) :=
    Law.sequential_publications
  cases command with
  | write context id output =>
    -- No run is open between the calls, so that the slot is closed and the publication is refused.
    cases ht
    have hidle : e.SlotFits [] := by
      obtain ⟨hclosed, hguarded⟩ := hbefore.guarded rfl
      have hfits := hguarded.finish
      rwa [hclosed, ← hbefore.eq_after] at hfits
    refine Law.lasting_publications.concat (Law.holds_nil _ e) fun next hnext => ?_
    cases (hidle.write_idle context id output).symm.trans hnext
  | read context id =>
    have hlooks : (Command.read context id : Command V).Looks := trivial
    exact (Law.obeys_publications_of_looks hfresh hlooks e s t ht).2
  | _ => exact (hsequential.carryOut hfresh (by trivial) e s t ht).2

/-! ## 3. Good outputs -/

/-- A run of the cell, which began when it was `old`, has come to the output and published it. -/
def Runner.Authored (runner : Runner V σ) (start : Engine V) (events : List (Event V)) (c : CellId)
    (old : Cell V) (output : Output V) : Prop :=
  ∃ earlier during later overrides,
    events = earlier ++ .step (.beginRun c) :: during ++ .step (.write ⟨c⟩ c output) :: later ∧
    (start.after earlier).cells[c]? = some old ∧
    runner.Returned ⟨c, old.runnableCode, (start.after earlier).flags.override overrides⟩
      ((start.after earlier).beginRun c) during output

/-- Every good output is that of a run which began with the persistent code that the cell
has now. -/
def Runner.Vouches (runner : Runner V σ) (start : Engine V) (events : List (Event V)) : Prop :=
  ∀ (c : CellId) cell, (start.after events).cells[c]? = some cell → cell.stale = false →
    ∃ old output, runner.Authored start events c old output ∧ cell.output = some output ∧
      cell.persistentCode = old.persistentCode

section

variable {runner : Runner V σ} {start : Engine V} {events behind : List (Event V)} {event : Event V}

theorem Runner.Authored.append {c : CellId} {old : Cell V} {output : Output V}
    (h : runner.Authored start events c old output) (last : List (Event V)) :
    runner.Authored start (events ++ last) c old output := by
  obtain ⟨earlier, during, later, overrides, rfl, hcell, hreturned⟩ := h
  exact ⟨earlier, during, later ++ last, overrides, by rw [List.append_assoc]; rfl,
    hcell, hreturned⟩

/-- One more event. What is published is what a run has come to. -/
theorem Runner.Vouches.concat (h : runner.Vouches start events)
    (hlaw : Law.publications runner start events event behind) :
    runner.Vouches start (events ++ [event]) := by
  intro c cell' hcell' hstale
  rw [Engine.after_append] at hcell'
  have hbefore : ∀ cell, (start.after events).cells[c]? = some cell → cell.stale = false →
      cell.output = cell'.output → cell.persistentCode = cell'.persistentCode →
      ∃ old output, runner.Authored start (events ++ [event]) c old output ∧
        cell'.output = some output ∧ cell'.persistentCode = old.persistentCode := by
    intro cell hcell hfresh houtput hcode
    obtain ⟨old, output, hauthored, hstored, hsame⟩ := h c cell hcell hfresh
    exact ⟨old, output, hauthored.append [event], houtput ▸ hstored, hcode ▸ hsame⟩
  cases event with
  | step s =>
    obtain ⟨cell, hcell, hfresh, houtput, hcode⟩ | ⟨context, output, next, rfl, hwrite, hstored⟩ :=
      Engine.fresh_of_apply hcell' hstale
    · exact hbefore cell hcell hfresh houtput hcode
    · -- A publication stores an output and leaves alone what the cell is told.
      obtain ⟨earlier, during, old, overrides, hsplit, hold, htold, hreturned⟩ := hlaw next hwrite
      obtain ⟨rfl, -⟩ := Engine.owner_of_write hwrite
      refine ⟨old, output, ⟨earlier, during, [], overrides, by rw [hsplit], hold, hreturned⟩,
        hstored, ?_⟩
      have htold' := (start.after events).told_apply_write context context.cell output context.cell
      have hcell'' :
          ((start.after events).apply (.write context context.cell output)).cells[context.cell]? =
          some cell' := hcell'
      rw [htold, Engine.told_eq_some_of_cell hcell'', Option.some_inj] at htold'
      exact Cell.persistentCode_eq_of_told htold'
  | answered context id reply => exact hbefore cell' hcell' hstale rfl rfl
  | bound name value => exact hbefore cell' hcell' hstale rfl rfl

end

/-- The code that would run is determined by the persistent code, if there is one, and by both in
any case. -/
theorem Cell.runnableCode_eq_of_persistentCode {cell old : Cell V}
    (h : cell.persistentCode = old.persistentCode)
    (hcode : cell.persistentCode.isSome = true ∨ cell.code = old.code) :
    old.runnableCode = cell.runnableCode := by
  rw [runnableCode, runnableCode, ← h]
  obtain hsome | hcode := hcode
  · obtain ⟨code, hcode⟩ := Option.isSome_iff_exists.1 hsome
    rw [hcode]
    rfl
  · rw [hcode]

/-- **A good output belongs to the persistent code of its cell**, at any moment in
the course of the history. -/
theorem Runner.OnlyReads.vouches {runner : Runner V σ} (hr : runner.OnlyReads)
    {allowed : Engine V → Command V → Prop} {flags : RunFlags} {events : List (Event V)}
    {e : Engine V} (h : runner.History allowed (.withFlags flags) events e) :
    e = (Engine.withFlags flags).after events ∧
    ∀ before later, events = before ++ later →
      let now := (Engine.withFlags flags).after before
      ∀ (c : CellId) cell, now.cells[c]? = some cell → cell.stale = false →
        ∃ old output, runner.Authored (.withFlags flags) before c old output ∧
          cell.output = some output ∧ cell.persistentCode = old.persistentCode ∧
          (cell.persistentCode.isSome = true ∨ cell.code = old.code →
            old.runnableCode = cell.runnableCode) := by
  refine ⟨h.eq_after, fun before later hsplit c cell hcell hstale => ?_⟩
  have hstart : runner.Vouches (.withFlags flags) [] := fun c cell hcell => absurd hcell (by
    simp [Engine.after, Engine.replay, Engine.withFlags])
  have hvouches := (h.obeys_publications hr).induct hstart
    (fun _ _ _ hlaw hbefore => hbefore.concat hlaw) before later hsplit
  obtain ⟨old, output, hauthored, hstored, hsame⟩ := hvouches c cell hcell hstale
  exact ⟨old, output, hauthored, hstored, hsame, Cell.runnableCode_eq_of_persistentCode hsame⟩

/-! ## 4. Another display code -/

/-- Every run comes to the code that it was handed. -/
def echo : Runner String Unit := fun _ request state => .done state (.ok (.plain request.code))

theorem echo_onlyReads : echo.OnlyReads := fun _ state => .done state _

/-- A cell without persistent code is run, and shows another code afterwards. -/
def retyped : List (Command String) :=
  [.edit (.update ((∅ : Batch).insert ⟨0⟩ { code := some "1" })), .execute ⟨0⟩ {},
    .edit (.update ((∅ : Batch).insert ⟨0⟩ { code := some "2" }))]

theorem retyped_fromOutside : ∀ command ∈ retyped, command.FromOutside := by
  intro command hcommand
  simp only [retyped, List.mem_cons, List.not_mem_nil, or_false] at hcommand
  rcases hcommand with rfl | rfl | rfl <;> trivial

/-- What the session leaves in the cell. -/
theorem retyped_leaves :
    ∃ events e cell, echo.session 1 retyped (.withFlags {}) () = some (events, e) ∧
    e.cells[(⟨0⟩ : CellId)]? = some cell ∧ cell.stale = false ∧ cell.output = some (.plain "1") ∧
    cell.runnableCode = "2" := by
  obtain ⟨⟨events, e⟩, hsession, hfound⟩ :
      ∃ found, echo.session 1 retyped (.withFlags {}) () = some found ∧
      (found.2.cells[(⟨0⟩ : CellId)]?).any (fun cell => !cell.stale &&
        decide (cell.output = some (.plain "1")) && decide (cell.runnableCode = "2")) = true :=
    (Option.any_eq_true _ _).1 (by decide +kernel)
  obtain ⟨cell, hcell, hleft⟩ := (Option.any_eq_true _ _).1 hfound
  simp only [Bool.and_eq_true, Bool.not_eq_true', decide_eq_true_eq] at hleft
  exact ⟨events, e, cell, hsession, hcell, hleft.1.1, hleft.1.2, hleft.2⟩

/-- The good output was returned by a run of the cell with its persistent code, of which it has
none. -/
theorem echo_vouches :
    ∃ events e cell old, echo.session 1 retyped (.withFlags {}) () = some (events, e) ∧
    e.cells[(⟨0⟩ : CellId)]? = some cell ∧ cell.stale = false ∧
    echo.Authored (.withFlags {}) events ⟨0⟩ old (.plain "1") ∧
      cell.persistentCode = old.persistentCode := by
  obtain ⟨events, e, cell, hsession, hcell, hfresh, hstored, -⟩ := retyped_leaves
  have hstart : echo.History (fun _ _ => True) (.withFlags {}) [] (.withFlags {}) := .start
  obtain ⟨rfl, hvouches⟩ :=
    echo_onlyReads.vouches (hstart.append_session (fun _ _ _ => trivial) hsession)
  obtain ⟨old, output, hauthored, houtput, hsame, -⟩ :=
    hvouches events [] (List.append_nil events).symm ⟨0⟩ cell hcell hfresh
  rw [hstored] at houtput
  cases houtput
  exact ⟨events, _, cell, old, hsession, hcell, hfresh, hauthored, hsame⟩

/-- **The output may outlive the display code that it was made from**: it is good, and no run that
is handed the code of the cell comes to it. -/
theorem retyped_outlives : echo.OnlyReads ∧ (∀ command ∈ retyped, command.FromOutside) ∧
    ∃ events e cell, echo.session 1 retyped (.withFlags {}) () = some (events, e) ∧
      e.cells[(⟨0⟩ : CellId)]? = some cell ∧ cell.stale = false ∧
      ∀ request engine notes output, cell.output = some output → request.code = cell.runnableCode →
        ¬ echo.Returned request engine notes output := by
  obtain ⟨events, e, cell, hsession, hcell, hfresh, hstored, hcode⟩ := retyped_leaves
  refine ⟨echo_onlyReads, retyped_fromOutside, events, e, cell, hsession, hcell, hfresh, ?_⟩
  rintro request engine notes output houtput hrequest ⟨limit, state, run, hrun, -, hreply⟩
  rw [hstored, Option.some_inj] at houtput
  rw [echo, perform_done, Option.some_inj] at hrun
  rw [← hrun, ← houtput, hrequest, hcode] at hreply
  simp at hreply

end Notebook
