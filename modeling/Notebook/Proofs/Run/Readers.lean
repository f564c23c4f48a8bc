import Notebook.Proofs.Run.Outcome

/-!
# Runners that only read

Most of what can be promised about caching is promised for runners that leave the engine
alone: a run may look at the engine, and it may read cells with the context it was handed,
in any order and as often as it likes, whatever the replies are. It keeps no context for
later and asks for nothing else.

Such a run ends as the owner of the slot it began with, so its output is always published, and

> **a run leaves the notebook alone**: what the cells are told, the slot, the flags and the queue of
> deletions are after the run what they were before it.
-/

set_option autoImplicit false

namespace Notebook

variable {V σ α : Type}

/-! ## 1. Programs that only read -/

/-- The program asks for nothing but reads with the given context, and looks at the engine. -/
inductive Program.OnlyReads (context : Context) : Program V σ α → Prop
  | done (state : σ) (value : α) : OnlyReads context (.done state value)
  | inspect {state : σ} {next : σ → (Command.inspect : Command V).Reply → Program V σ α}
      (h : ∀ s e, (next s e).OnlyReads context) : OnlyReads context (.ask state .inspect next)
  | read {state : σ} {id : CellId} {next : σ → (Command.read context id : Command V).Reply →
      Program V σ α} (h : ∀ s reply, (next s reply).OnlyReads context) :
      OnlyReads context (.ask state (.read context id) next)

/-- In each run the runner only reads, with the context of the run. -/
def Runner.OnlyReads (runner : Runner V σ) : Prop :=
  ∀ request state, (runner ⟨request.cell⟩ request state).OnlyReads ⟨request.cell⟩

theorem Runner.OnlyReads.programOf {runner : Runner V σ} (h : runner.OnlyReads) (id : CellId)
    (overrides : FlagOverrides) (e : Engine V) (s : σ) (cell : Cell V) :
    (runner.programOf id overrides e s cell).OnlyReads ⟨id⟩ :=
  h ⟨id, cell.runnableCode, e.flags.override overrides⟩ s

/-! ## 2. The end of a run -/

/-- A run that ends with an output, of a cell that owns the slot, publishes the output. -/
theorem Turn.concluded_of_ok {t : Turn V σ (Except RunFailure (Output V))} {id : CellId}
    {cell : Cell V} {output : Output V} (hslot : t.engine.executing = some id)
    (hcell : t.engine.cells[id]? = some cell) (hreply : t.reply = .ok output)
    (slot : Option CellId) :
    t.concluded id slot =
      ⟨.ok output, (t.engine.publish id cell output).resume slot, t.state,
        .step (.beginRun id) :: t.events ++
          [.step (.write ⟨id⟩ id output), .step (.resume slot)]⟩ := by
  rw [Turn.concluded, hreply]
  dsimp only
  rw [Engine.write_eq_ok hslot hcell, Engine.apply_write_eq_publish hslot hcell]
  rfl

theorem Turn.concluded_of_error {t : Turn V σ (Except RunFailure (Output V))} {id : CellId}
    {failure : RunFailure} (hreply : t.reply = .error failure) (slot : Option CellId) :
    t.concluded id slot =
      ⟨.error (.executionFailure id failure.toText), (t.engine.failRun id).resume slot, t.state,
        .step (.beginRun id) :: t.events ++ [.step (.failRun id), .step (.resume slot)]⟩ := by
  rw [Turn.concluded, hreply]

/-! ## 3. A run leaves the notebook alone -/

/-- Whatever cell is run, the notebook is left alone. -/
def FreshRun.Framed (fresh : FreshRun V σ) : Prop :=
  ∀ id overrides e s t, fresh id overrides e s = some t → Engine.Frame e t.engine

section

variable {fresh : FreshRun V σ}

theorem framed_executeWith (h : FreshRun.Framed fresh) : FreshRun.Framed (executeWith fresh) := by
  intro id overrides e s t ht
  obtain ⟨-, rfl⟩ | ⟨cell, -, -, rfl⟩ | ⟨cell, -, -, ht⟩ := executeWith_cases ht
  · exact .refl e
  · exact .refl e
  · exact h id overrides e s t ht

theorem frame_of_readWith (h : FreshRun.Framed fresh) {context : Context} {id : CellId}
    {e : Engine V} {s : σ} {t : Turn V σ (Except Fault (Output V))}
    (ht : readWith fresh context id e s = some t) : Engine.Frame e t.engine := by
  obtain ⟨-, rfl⟩ | ⟨-, rfl⟩ | ⟨run, -, -, hrun, rfl⟩ := readWith_cases ht
  · exact .refl e
  · exact .refl e
  · have hframe := framed_executeWith h id {} _ _ _ hrun
    exact (Engine.Frame.connect e id context.cell).trans hframe

theorem frame_of_runRequestedWith (h : FreshRun.Framed fresh) {request : Request} {e : Engine V}
    {s : σ} {t : Turn V σ (Except Fault (Output V))}
    (ht : runRequestedWith fresh request e s = some t) : Engine.Frame e t.engine := by
  obtain ⟨fault, rfl⟩ | ⟨cell, run, hcell, hrun, rfl⟩ := runRequestedWith_cases ht
  · exact .refl e
  · have hframe := h _ _ _ _ _ hrun
    exact ⟨fun c => (hframe.told c).trans (Engine.told_insert_markStale hcell c),
      hframe.executing, hframe.flags, hframe.deleted⟩

theorem frame_of_followUpWith (h : FreshRun.Framed fresh) {id : CellId}
    {result : Except Fault (Output V)} {e : Engine V} {s : σ} {t : Turn V σ (Option Fault)}
    (ht : followUpWith fresh id result e s = some t) : Engine.Frame e t.engine := by
  refine followUpWith_keeps
    (fun id _ _ _ hframe ht => hframe.trans (framed_executeWith h id {} _ _ _ ht))
    (fun id _ hframe => hframe.trans ?_) (.refl e) ht
  exact ⟨Engine.told_markDescendantsStale _ id, rfl, rfl, rfl⟩

theorem frame_of_perform (h : FreshRun.Framed fresh) {context : Context} {program : Program V σ α}
    (hprogram : program.OnlyReads context) {e : Engine V} {s : σ} {t : Turn V σ α}
    (ht : perform fresh program e s = some t) : Engine.Frame e t.engine := by
  induction hprogram generalizing e s t with
  | done state value =>
    rw [perform_done] at ht
    cases ht
    exact .refl e
  | inspect _ ih =>
    rw [perform_inspect] at ht
    exact ih _ _ ht
  | read _ ih =>
    rw [perform_read] at ht
    obtain ⟨first, hfirst, ht⟩ := Option.bind_eq_some_iff.1 ht
    obtain ⟨second, hsecond, rfl⟩ := Option.map_eq_some_iff.1 ht
    have hframe := ih _ _ hsecond
    exact (frame_of_readWith h hfirst).trans hframe

end

theorem Engine.told_prepared (e : Engine V) (batch : Batch) (c : CellId) :
    (e.prepared batch).told c = (e.update batch).told c := by
  rw [prepared, told_resetDidRun]
  rfl

theorem Engine.contains_prepared (e : Engine V) (batch : Batch) (c : CellId) :
    (e.prepared batch).contains c = (e.update batch).contains c :=
  contains_of_told (e.told_prepared batch c)

/-- The engine at the end of a run: it has the frame of the beginning, the running cell owns the
slot and is in the table, and it was told what it was told before. -/
theorem Engine.Frame.afterBegin {e e' : Engine V} {id : CellId} {cell : Cell V}
    (h : Engine.Frame (e.beginRun id) e') (hcell : e.cells[id]? = some cell) :
    e'.executing = some id ∧ ∃ cell', e'.cells[id]? = some cell' ∧ cell'.told = cell.told := by
  refine ⟨h.executing, Engine.exists_cell_of_told (e := e) ?_ hcell⟩
  rw [h.told, Engine.told_beginRun]

/-- **A run leaves the notebook alone.** -/
theorem framed_runFresh {runner : Runner V σ} (hr : runner.OnlyReads) (limit : Nat) :
    FreshRun.Framed (runFresh runner limit) := by
  refine runFresh_induct (fun _ _ e _ _ => .refl e) ?_ limit
  intro limit ih id overrides e s cell run hcell hrun
  have hframe := frame_of_perform ih (hr.programOf id overrides e s cell) hrun
  obtain ⟨hslot, cell', hcell', -⟩ := hframe.afterBegin hcell
  have htold : ∀ c, run.engine.told c = e.told c := fun c => by
    rw [hframe.told, Engine.told_beginRun]
  cases hreply : run.reply with
  | ok output =>
    rw [Turn.concluded_of_ok hslot hcell' hreply]
    exact ⟨fun c => (Engine.told_publish hcell' output c).trans (htold c), rfl, hframe.flags,
      hframe.deleted⟩
  | error failure =>
    rw [Turn.concluded_of_error hreply]
    exact ⟨fun c => (Engine.told_failRun _ id c).trans (htold c), rfl,
      (Engine.flags_failRun _ id).trans hframe.flags,
      (Engine.deleted_failRun _ id).trans hframe.deleted⟩

/-- **What a run of a runner that only reads can come to**: it is refused, or its output is
published, or its failure is recorded. -/
theorem Runner.OnlyReads.runFresh_cases {runner : Runner V σ} (hr : runner.OnlyReads) {limit : Nat}
    {id : CellId} {overrides : FlagOverrides} {e : Engine V} {s : σ}
    {t : Turn V σ (Except Fault (Output V))} (h : runFresh runner limit id overrides e s = some t) :
    (∃ fault, t = ⟨.error fault, e, s, []⟩) ∨
    ∃ deeper cell run cell', limit = deeper + 1 ∧ e.graph.hasCycle = false ∧
      e.cells[id]? = some cell ∧
      perform (runFresh runner deeper) (runner.programOf id overrides e s cell) (e.beginRun id) s =
        some run ∧
      Engine.Frame (e.beginRun id) run.engine ∧ run.engine.cells[id]? = some cell' ∧
        cell'.told = cell.told ∧
      ((∃ output, run.reply = .ok output ∧
          t = ⟨.ok output, (run.engine.publish id cell' output).resume e.executing, run.state,
            .step (.beginRun id) :: run.events ++
              [.step (.write ⟨id⟩ id output), .step (.resume e.executing)]⟩) ∨
        ∃ failure, run.reply = .error failure ∧
          t = ⟨.error (.executionFailure id failure.toText),
            (run.engine.failRun id).resume e.executing,
            run.state, .step (.beginRun id) :: run.events ++
              [.step (.failRun id), .step (.resume e.executing)]⟩) := by
  obtain ⟨-, rfl⟩ | ⟨-, -, rfl⟩ | ⟨deeper, cell, run, rfl, hcycle, hcell, hrun, rfl⟩ :=
    Notebook.runFresh_cases h
  · exact .inl ⟨_, rfl⟩
  · exact .inl ⟨_, rfl⟩
  · have hframe := frame_of_perform (framed_runFresh hr deeper)
      (hr.programOf id overrides e s cell) hrun
    obtain ⟨hslot, cell', hcell', htold⟩ := hframe.afterBegin hcell
    refine .inr ⟨deeper, cell, run, cell', rfl, hcycle, hcell, hrun, hframe, hcell', htold, ?_⟩
    cases hreply : run.reply with
    | ok output => exact .inl ⟨output, rfl, Turn.concluded_of_ok hslot hcell' hreply _⟩
    | error failure => exact .inr ⟨failure, rfl, Turn.concluded_of_error hreply _⟩

end Notebook
