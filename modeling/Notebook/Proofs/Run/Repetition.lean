import Notebook.Proofs.Run.Glitches

/-!
# Executions one after the other

Which executions run a cell is seen from the cell: one that is not stale answers its stored
output, and a stale one is run if the graph has no cycle. So

> **an execution that succeeded is not repeated**: executed again at once, the cell answers the
> same output, and nothing is run.

There is one exception. A run may close a cycle through its own cell, since its reads are answered
from stored outputs without a look at the graph. Then the publication of the cell makes the cell
itself stale, and from there on it is refused.
-/

set_option autoImplicit false

namespace Notebook

open Std

variable {V σ : Type}

/-! ## 1. What the cell decides -/

section

variable (runner : Runner V σ) {e : Engine V} {c : CellId} {cell : Cell V} (limit : Nat)
  (overrides : FlagOverrides) (s : σ)

/-- A cell that is not stale, or always answers its stored output, is not run. -/
theorem Runner.execute_of_usesCache (hcell : e.cells[c]? = some cell)
    (hcache : cell.usesCache = true) :
    runner.execute limit c overrides e s = some ⟨e.cachedOutput c, e, s, []⟩ := by
  rw [execute, executeWith_apply, hcell]
  exact if_pos hcache

theorem Runner.execute_of_fresh (hcell : e.cells[c]? = some cell) (hfresh : cell.stale = false) :
    runner.execute limit c overrides e s = some ⟨e.cachedOutput c, e, s, []⟩ := by
  refine runner.execute_of_usesCache limit overrides s hcell ?_
  rw [Cell.usesCache, hfresh, Bool.not_false, Bool.or_true]

theorem Runner.execute_of_cycle (hcell : e.cells[c]? = some cell) (hstale : cell.stale = true)
    (hunforced : cell.forceCached = false) (hcycle : e.graph.hasCycle = true) :
    runner.execute limit c overrides e s = some ⟨.error (.cyclicDependency c), e, s, []⟩ := by
  have hcache : cell.usesCache = false := by
    rw [Cell.usesCache_eq_not_stale hunforced, hstale, Bool.not_true]
  rw [execute, executeWith_apply, hcell]
  dsimp only
  rw [hcache, if_neg Bool.false_ne_true, runFresh_of_cycle runner c overrides e s limit hcycle]

end

/-- **A stale cell is run again** by its execution, unless the graph has a cycle. -/
theorem Runner.OnlyReads.execute_of_stale {runner : Runner V σ} (hr : runner.OnlyReads)
    {e : Engine V} {c : CellId} {cell : Cell V} (hcell : e.cells[c]? = some cell)
    (hstale : cell.stale = true) (hunforced : cell.forceCached = false) (overrides : FlagOverrides)
    (s : σ) :
    ∃ t, (∀ limit, e.cells.size ≤ limit → runner.execute limit c overrides e s = some t) ∧
      (e.graph.hasCycle = true ∧ t = ⟨.error (.cyclicDependency c), e, s, []⟩ ∨
        e.graph.hasCycle = false ∧ .step (.beginRun c) ∈ t.events) := by
  obtain ⟨t, ht⟩ := hr.execute_returns c overrides e s
  refine ⟨t, ht, ?_⟩
  have hrun := ht _ (Nat.le_refl _)
  obtain ⟨hnone, -⟩ | ⟨found, hfound, hcache, -⟩ | ⟨-, -, -, hrun⟩ := executeWith_cases hrun
  · rw [hcell] at hnone
    cases hnone
  · rw [hcell] at hfound
    cases hfound
    rw [Cell.usesCache_eq_not_stale hunforced, hstale] at hcache
    exact Bool.noConfusion hcache
  · obtain ⟨hcycle, rfl⟩ | ⟨-, hnone, -⟩ | ⟨_, _, run, _, hcycle, _, _, rfl⟩ :=
      Notebook.runFresh_cases hrun
    · exact .inl ⟨hcycle, rfl⟩
    · rw [hcell] at hnone
      cases hnone
    · obtain ⟨last, -, hevents, -⟩ := run.concluded_last c e.executing
      rw [hevents]
      exact .inr ⟨hcycle, List.mem_cons_self⟩

/-! ## 2. Executed again -/

/-- **What a successful execution leaves behind**: a stored output that was good before, or the
output of a run. After a run the cell is stale only if it feeds itself. -/
theorem Runner.OnlyReads.execute_ok_cases {runner : Runner V σ} (hr : runner.OnlyReads)
    {limit : Nat} {c : CellId} {overrides : FlagOverrides} {e : Engine V} {s : σ}
    {t : Turn V σ (Except Fault (Output V))} {output : Output V}
    (ht : runner.execute limit c overrides e s = some t) (hok : t.reply = .ok output) :
    (∃ cell, e.cells[c]? = some cell ∧ cell.usesCache = true ∧ e.cachedOutput c = .ok output ∧
      t = ⟨.ok output, e, s, []⟩) ∨
    ∃ cell, t.engine.cells[c]? = some cell ∧ cell.forceCached = false ∧ cell.output = some output ∧
      (cell.stale = true ↔ t.engine.graph.Feeds c c) ∧ e.graph.hasCycle = false ∧
      .step (.beginRun c) ∈ t.events := by
  obtain ⟨-, rfl⟩ | ⟨cell, hcell, hcache, rfl⟩ | ⟨cell, hcell, hcache, hrun⟩ := executeWith_cases ht
  · cases hok
  · have hok : e.cachedOutput c = .ok output := hok
    exact .inl ⟨cell, hcell, hcache, hok, by rw [hok]⟩
  · refine .inr ?_
    obtain ⟨fault, rfl⟩ | ⟨_, found, run, last, -, hcycle, hfound, -, -, -, htold, hend⟩ :=
      hr.runFresh_cases hrun
    · cases hok
    obtain ⟨value, -, rfl⟩ | ⟨failure, -, rfl⟩ := hend
    · cases hok
      rw [hcell] at hfound
      cases hfound
      have hunforced : last.forceCached = false := by
        rw [Cell.forceCached_eq_of_told htold]
        exact (Bool.or_eq_false_iff.1 hcache).1
      -- The publication marks the cell stale again if the cell is among its own descendants.
      have hlast := run.engine.getElem?_publish c c last output
      rw [if_pos rfl, Option.map_some] at hlast
      refine ⟨_, hlast, ?_, ?_, ?_, hcycle, List.mem_cons_self⟩
      · split <;> exact hunforced
      · split <;> rfl
      · rw [← Graph.mem_descendants_iff]
        show _ ↔ c ∈ run.engine.graph.descendants c
        split
        · rename_i hself
          exact iff_of_true rfl hself
        · rename_i hself
          exact iff_of_false Bool.false_ne_true hself
    · cases hok

/-- **An execution that succeeded is not repeated.** If the cell was not run, or does not
feed itself now, then it answers the same output again, nothing is run and nothing changes.
If it was run and feeds itself now, then the run has closed a cycle: the cell is refused,
and nothing changes either. -/
theorem Runner.OnlyReads.execute_again {runner : Runner V σ} (hr : runner.OnlyReads) {limit : Nat}
    {c : CellId} {overrides : FlagOverrides} {e : Engine V} {s : σ}
    {t : Turn V σ (Except Fault (Output V))} {output : Output V}
    (ht : runner.execute limit c overrides e s = some t) (hok : t.reply = .ok output) (limit' : Nat)
    (overrides' : FlagOverrides) (s' : σ) :
    (.step (.beginRun c) ∉ t.events ∨ ¬ t.engine.graph.Feeds c c →
      runner.execute limit' c overrides' t.engine s' = some ⟨.ok output, t.engine, s', []⟩) ∧
    (.step (.beginRun c) ∈ t.events → t.engine.graph.Feeds c c → e.graph.hasCycle = false ∧
      runner.execute limit' c overrides' t.engine s' =
        some ⟨.error (.cyclicDependency c), t.engine, s', []⟩) := by
  obtain ⟨cell, hcell, hcache, hstored, rfl⟩ |
      ⟨cell, hcell, hunforced, hstored, hstale, hcycle, hbegun⟩ :=
    hr.execute_ok_cases ht hok
  · refine ⟨fun _ => ?_, fun hbegun => by cases hbegun⟩
    rw [runner.execute_of_usesCache limit' overrides' s' hcell hcache, hstored]
  · refine ⟨fun honce => ?_, fun _ hself => ⟨hcycle, ?_⟩⟩
    · have hfresh : cell.stale = false := by
        have hnot := honce.resolve_left fun hnone => hnone hbegun
        rwa [← hstale, Bool.not_eq_true] at hnot
      rw [runner.execute_of_fresh limit' overrides' s' hcell hfresh, Engine.cachedOutput, hcell]
      dsimp only
      rw [hstored]
    · exact runner.execute_of_cycle limit' overrides' s' hcell (hstale.2 hself) hunforced
        (Graph.hasCycle_of_feeds_self hself)

/-! ## 3. A circle that is closed by a read -/

/-- The cell that the code says to read. -/
def namedIn (code : String) : List CellId :=
  if code = "read 0" then [⟨0⟩] else if code = "read 1" then [⟨1⟩] else if code =
    "read 2" then [⟨2⟩] else []

/-- Reads what the code says, and fails if the read fails or the code says so. -/
def scripted : Runner Nat Unit := fun context request _ =>
  if request.code = "fail" then .done () (.error ⟨"Failure", "as told"⟩)
  else sumReads context request.code.length (namedIn request.code)

theorem scripted_onlyReads : scripted.OnlyReads := by
  intro request state
  rw [scripted]
  split
  · exact .done () _
  · exact sumReads_onlyReads _ _ _

/-- Two cells that read nothing. -/
def apart : Batch :=
  (∅ : Batch).insert ⟨0⟩ (.ofCode "a") |>.insert ⟨1⟩ (.ofCode "b")

/-- Cell 1 is run, and run no more. -/
theorem apart_execute_again : ∃ t, scripted.execute 2 ⟨1⟩ {} (Engine.new.update apart) () = some t ∧
    t.reply = .ok (.plain 1) ∧ begun t.events = [⟨1⟩] ∧ ¬ t.engine.graph.Feeds ⟨1⟩ ⟨1⟩ ∧
    scripted.execute 2 ⟨1⟩ {} t.engine () = some ⟨.ok (.plain 1), t.engine, (), []⟩ := by
  obtain ⟨t, ht, hlater⟩ : ∃ t, scripted.execute 2 ⟨1⟩ {} (Engine.new.update apart) () = some t ∧
      decide (t.reply = .ok (.plain 1) ∧ begun t.events = [⟨1⟩] ∧
        ⟨1⟩ ∉ t.engine.graph.descendants ⟨1⟩) = true :=
    (Option.any_eq_true _ _).1 (by decide +kernel)
  obtain ⟨hok, hbegun, hself⟩ := of_decide_eq_true hlater
  rw [Graph.mem_descendants_iff] at hself
  obtain ⟨hagain, -⟩ := scripted_onlyReads.execute_again ht hok 2 {} ()
  exact ⟨t, ht, hok, hbegun, hself, hagain (.inr hself)⟩

/-- Cell 0 is told to read cell 1, which declares cell 0 by now. -/
def turned : Batch :=
  (∅ : Batch).insert ⟨0⟩ (.ofCode "read 1") |>.insert ⟨1⟩ ((Revision.ofCode "b").withInput ⟨0⟩ [])

/-- Cell 1 has stored an output before it declares cell 0. -/
def turning : List (Command Nat) :=
  [.edit (.update apart), .execute ⟨1⟩ {}, .edit (.update turned)]

/-- **A run that closes a circle**: cell 0 is answered what cell 1 has stored, and so it succeeds.
Executed again at once, it is refused. -/
theorem turning_refused : ∃ events e t,
    scripted.History (fun _ command => command.FromOutside) .new events e ∧
    scripted.execute 2 ⟨0⟩ {} e () = some t ∧ t.reply = .ok (.plain 7) ∧
    scripted.execute 2 ⟨0⟩ {} t.engine () =
      some ⟨.error (.cyclicDependency ⟨0⟩), t.engine, (), []⟩ := by
  obtain ⟨⟨events, e⟩, hsession, hlater⟩ :
      ∃ found, scripted.session 2 turning .new () = some found ∧
      ((scripted.execute 2 ⟨0⟩ {} found.2 ()).any fun t => decide (t.reply = .ok (.plain 7)) &&
        t.engine.graph.hasCycle && (t.engine.cells[(⟨0⟩ : CellId)]?).any fun cell =>
          cell.stale && !cell.forceCached) = true :=
    (Option.any_eq_true _ _).1 (by decide +kernel)
  obtain ⟨t, ht, hlater⟩ := (Option.any_eq_true _ _).1 hlater
  simp only [Bool.and_eq_true, decide_eq_true_eq, Option.any_eq_true, Bool.not_eq_true'] at hlater
  obtain ⟨⟨hok, hcycle⟩, cell, hcell, hstale, hunforced⟩ := hlater
  have hstart : scripted.History (fun _ command => command.FromOutside) .new [] .new := .start
  have hhistory := hstart.append_session (fun command hcommand _ => by
    simp only [turning, List.mem_cons, List.not_mem_nil, or_false] at hcommand
    rcases hcommand with rfl | rfl | rfl <;> trivial) hsession
  exact ⟨events, e, t, hhistory, ht, hok,
    scripted.execute_of_cycle 2 {} () hcell hstale hunforced hcycle⟩

end Notebook
