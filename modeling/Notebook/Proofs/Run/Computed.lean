import Notebook.Proofs.Run.Calls

/-!
# What is fresh is computed

A cell is not stale once an output has been published for it, and until something makes it
stale again. Whatever drops the output makes the cell stale as well: a new persistent
code, a failure, a restore. So

> **a cell that is not stale stores an output**, whoever the runner is and whatever it asks for,
> also while runs are in progress.

A cell that always answers its stored output is not asked whether it is stale. It is the only one
that can be asked for an output that it does not have, because a run fails with other faults than
that one, even if it was told of a cell that is not computed.
-/

set_option autoImplicit false

namespace Notebook

open Std

variable {V σ : Type}

/-! ## 1. Cells that are not stale -/

namespace Engine

/-- All cells that are not stale store outputs. -/
def Computed (e : Engine V) : Prop :=
  ∀ (c : CellId) cell, e.cells[c]? = some cell → cell.stale = false →
    ∃ output, cell.output = some output

theorem computed_withFlags (flags : RunFlags) :
    (withFlags flags : Engine V).Computed := fun c cell hcell =>
  absurd hcell (by simp [withFlags])

/-- One step more. What is fresh by now was fresh before, or was just published. -/
theorem Computed.apply {e : Engine V} (s : Step V) (h : e.Computed) : (e.apply s).Computed := by
  intro c cell' hcell' hfresh'
  obtain ⟨cell, hcell, hfresh, houtput, -⟩ | ⟨-, output, -, -, -, houtput⟩ :=
    fresh_of_apply hcell' hfresh'
  · rw [← houtput]
    exact h c cell hcell hfresh
  · exact ⟨output, houtput⟩

/-- **What is fresh is computed** after any number of steps. -/
theorem computed_after (flags : RunFlags) (events : List (Event V)) :
    ((withFlags flags).after events).Computed :=
  after_keeps (fun _ s h => h.apply s) (computed_withFlags flags) events

end Engine

/-! ## 2. What a run fails with -/

/-- What a run of the cell may fail with. -/
inductive Fault.EndsRun (id : CellId) : Fault → Prop
  | cycle : EndsRun id (.cyclicDependency id)
  | gone : EndsRun id (.unknownCell id)
  | slotLost : EndsRun id (.unauthorizedWrite id id)
  | failed (message : String) : EndsRun id (.executionFailure id message)

theorem error_of_map_eq_error {α β : Type} {f : α → β} {result : Except Fault α} {fault : Fault}
    (h : result.map f = .error fault) : result = .error fault := by
  cases result with
  | ok value => cases h
  | error other =>
    cases h
    rfl

theorem Engine.endsRun_of_write {e : Engine V} {id : CellId} {output : Output V} {fault : Fault}
    (h : e.write ⟨id⟩ id output = .error fault) : fault.EndsRun id := by
  rw [write] at h
  split at h
  · split at h
    · cases h
      exact .gone
    · cases h
  · cases h
    exact .slotLost

theorem Turn.endsRun_of_concluded {t : Turn V σ (Except RunFailure (Output V))} {id : CellId}
    {slot : Option CellId} {fault : Fault} (h : (t.concluded id slot).reply = .error fault) :
    fault.EndsRun id := by
  cases hreply : t.reply with
  | ok output =>
    have hwritten : (t.engine.write ⟨id⟩ id output).map (fun _ => output) = .error fault := by
      rw [concluded, hreply] at h
      exact h
    exact Engine.endsRun_of_write (error_of_map_eq_error hwritten)
  | error failure =>
    rw [concluded_of_error hreply] at h
    cases h
    exact .failed failure.toText

/-- A runner may have been told other faults, but they do not come out of the run. -/
theorem endsRun_of_runFresh {runner : Runner V σ} {limit : Nat} {id : CellId}
    {overrides : FlagOverrides} {e : Engine V} {s : σ} {t : Turn V σ (Except Fault (Output V))}
    (ht : runFresh runner limit id overrides e s = some t) {fault : Fault}
    (hfault : t.reply = .error fault) : fault.EndsRun id := by
  obtain ⟨-, rfl⟩ | ⟨-, -, rfl⟩ | ⟨_, _, _, -, -, -, -, rfl⟩ := runFresh_cases ht
  · cases hfault
    exact .cycle
  · cases hfault
    exact .gone
  · exact Turn.endsRun_of_concluded hfault

/-! ## 3. Cells that are not computed -/

section

variable (runner : Runner V σ) (limit : Nat) (overrides : FlagOverrides) (s : σ) {id : CellId}
  {e : Engine V} {cell : Cell V}

/-- A cell that always answers its stored output, and stores none. -/
theorem Runner.execute_of_empty (hcell : e.cells[id]? = some cell)
    (hforced : cell.forceCached = true) (hempty : cell.output = none) :
    runner.execute limit id overrides e s = some ⟨.error (.notYetComputed id), e, s, []⟩ := by
  have hcache : cell.usesCache = true := by rw [Cell.usesCache, hforced, Bool.true_or]
  rw [runner.execute_of_usesCache limit overrides s hcell hcache, Engine.cachedOutput, hcell]
  dsimp only
  rw [hempty]

namespace Engine.Computed

/-- **Which cell is not computed**: one that always answers its stored output and stores none.
Nothing is run then, and nothing is changed. -/
theorem execute_iff (h : e.Computed) (hcell : e.cells[id]? = some cell)
    (t : Turn V σ (Except Fault (Output V))) :
    (runner.execute limit id overrides e s = some t ∧ ∃ c, t.reply = .error (.notYetComputed c)) ↔
      cell.forceCached = true ∧ cell.output = none ∧
        t = ⟨.error (.notYetComputed id), e, s, []⟩ := by
  constructor
  · rintro ⟨ht, c, hreply⟩
    obtain ⟨hnone, -⟩ | ⟨found, hfound, hcache, rfl⟩ | ⟨_, -, -, hrun⟩ := executeWith_cases ht
    · rw [hcell] at hnone
      cases hnone
    · obtain rfl : cell = found := Option.some_inj.1 (hcell.symm.trans hfound)
      have hcached : e.cachedOutput id = .error (.notYetComputed c) := hreply
      obtain ⟨hempty, hanswer⟩ | ⟨output, -, hanswer⟩ := cachedOutput_cases hcell
      · -- A fresh cell stores an output. So this one is stale, and answers what it
        -- stores because it always does.
        refine ⟨?_, hempty, by rw [hanswer]⟩
        rw [Cell.usesCache, Bool.or_eq_true, Bool.not_eq_true'] at hcache
        refine hcache.resolve_right fun hfresh => ?_
        obtain ⟨output, houtput⟩ := h id cell hcell hfresh
        rw [hempty] at houtput
        cases houtput
      · rw [hanswer] at hcached
        cases hcached
    · cases endsRun_of_runFresh hrun hreply
  · rintro ⟨hforced, hempty, rfl⟩
    exact ⟨runner.execute_of_empty limit overrides s hcell hforced hempty, id, rfl⟩

/-- A read finds the same cells not computed, and records its edge all the same. -/
theorem read_iff (h : e.Computed) (hcell : e.cells[id]? = some cell) (context : Context)
    (t : Turn V σ (Except Fault (Output V))) :
    (runner.read limit context id e s = some t ∧ ∃ c, t.reply = .error (.notYetComputed c)) ↔
      id ≠ context.cell ∧ cell.forceCached = true ∧ cell.output = none ∧
        t = ⟨.error (.notYetComputed id), e.connect id context.cell, s,
          [.step (.connect id context.cell),
            .answered context id (.error (.notYetComputed id))]⟩ := by
  constructor
  · rintro ⟨ht, c, hreply⟩
    obtain ⟨-, rfl⟩ | ⟨-, rfl⟩ | ⟨run, -, hother, hrun, rfl⟩ := readWith_cases ht
    · cases hreply
    · cases hreply
    · have hfault : run.reply = .error (.notYetComputed c) := error_of_map_eq_error hreply
      have hconnected : (e.apply (.connect id context.cell)).Computed := h.apply _
      obtain ⟨hforced, hempty, rfl⟩ :=
        (hconnected.execute_iff runner limit {} s hcell run).1 ⟨hrun, c, hfault⟩
      exact ⟨hother, hforced, hempty, rfl⟩
  · rintro ⟨hother, hforced, hempty, rfl⟩
    have hconnected : (e.apply (.connect id context.cell)).cells[id]? = some cell := hcell
    have hrun := runner.execute_of_empty limit {} s hconnected hforced hempty
    refine ⟨?_, id, rfl⟩
    rw [Runner.execute] at hrun
    rw [Runner.read, readWith_apply, lookUpWith_apply, contains_of_cell hcell, Bool.not_true,
      if_neg Bool.false_ne_true, if_neg hother, hrun]
    rfl

end Engine.Computed

end

/-! ## 4. Histories -/

/-- **What is fresh is computed, and only a cell that always answers its stored output is found
not to be**, at any moment `now` in the course of the history. Whoever executes a cell is
answered so if and only if it always answers its stored output and stores none, and then nothing
is run and nothing is changed. -/
theorem Runner.History.fresh_computed {runner : Runner V σ} {allowed : Engine V → Command V → Prop}
    {flags : RunFlags} {events : List (Event V)} {e : Engine V}
    (h : runner.History allowed (.withFlags flags) events e) :
    e = (Engine.withFlags flags).after events ∧
    ∀ before later, events = before ++ later →
      let now := (Engine.withFlags flags).after before
      ∀ (id : CellId) cell, now.cells[id]? = some cell →
        (cell.stale = false → ∃ output, cell.output = some output) ∧
        ∀ {τ : Type} (other : Runner V τ) limit overrides s t,
          (other.execute limit id overrides now s = some t ∧
            ∃ c, t.reply = .error (.notYetComputed c)) ↔
            cell.forceCached = true ∧ cell.output = none ∧
              t = ⟨.error (.notYetComputed id), now, s, []⟩ := by
  refine ⟨h.eq_after, fun before later _ id cell hcell => ?_⟩
  have hcomputed := Engine.computed_after flags before
  exact ⟨hcomputed id cell hcell, fun other limit overrides s =>
    hcomputed.execute_iff other limit overrides s hcell⟩

/-- Cell 0 executes cell 1, which always answers its stored output. -/
def keepForced : List (Command Unit) :=
  [.edit (.update ((∅ : Batch).insert ⟨0⟩ (.ofCode "keep")
      |>.insert ⟨1⟩ { code := some "use", forceCached := true })),
    .execute ⟨0⟩ {}]

/-- While cell 0 runs, cell 1 is found not computed. In the end cell 0 stores an output. -/
theorem keeper_fresh_computed :
    ∃ events e cell, keeper.session 2 keepForced (.withFlags {}) none = some (events, e) ∧
    openRuns [] (events.take 2) = [⟨0⟩] ∧
    keeper.execute 2 ⟨1⟩ {} ((Engine.withFlags {}).after (events.take 2)) none =
      some ⟨.error (.notYetComputed ⟨1⟩), (Engine.withFlags {}).after (events.take 2), none, []⟩ ∧
    e.cells[(⟨0⟩ : CellId)]? = some cell ∧ cell.stale = false ∧
      ∃ output, cell.output = some output := by
  obtain ⟨⟨events, e⟩, hsession, hfound⟩ :
      ∃ found, keeper.session 2 keepForced (.withFlags {}) none = some found ∧
      (decide (openRuns [] (found.1.take 2) = [⟨0⟩]) &&
        (((Engine.withFlags {}).after (found.1.take 2)).cells[(⟨1⟩ : CellId)]?).any (fun cell =>
          cell.forceCached && decide (cell.output = none)) &&
        (found.2.cells[(⟨0⟩ : CellId)]?).any fun cell => !cell.stale) = true :=
    (Option.any_eq_true _ _).1 (by decide +kernel)
  simp only [Bool.and_eq_true, decide_eq_true_eq] at hfound
  obtain ⟨⟨hruns, hduring⟩, hend⟩ := hfound
  obtain ⟨forced, hforced, hempty⟩ := (Option.any_eq_true _ _).1 hduring
  obtain ⟨cell, hcell, hfresh⟩ := (Option.any_eq_true _ _).1 hend
  rw [Bool.and_eq_true, decide_eq_true_eq] at hempty
  rw [Bool.not_eq_true'] at hfresh
  have hstart : keeper.History (fun _ _ => True) (.withFlags {}) [] (.withFlags {}) := .start
  obtain ⟨rfl, hcomputed⟩ := (hstart.append_session (fun _ _ _ => trivial) hsession).fresh_computed
  obtain ⟨-, hexecute⟩ := hcomputed _ _ (List.take_append_drop 2 events).symm ⟨1⟩ forced hforced
  obtain ⟨hnow, -⟩ := (hexecute keeper 2 {} none _).2 ⟨hempty.1, hempty.2, rfl⟩
  obtain ⟨hstores, -⟩ := hcomputed events [] (List.append_nil events).symm ⟨0⟩ cell hcell
  exact ⟨events, _, cell, hsession, hruns, hnow, hcell, hfresh, hstores hfresh⟩

end Notebook
