import Notebook.Proofs.Engine.Batch
import Notebook.Proofs.Run.History

/-!
# Runs that read what is declared

A run reads what its cell declares if it reads every declared reference and no other
cell, and fails as soon as one of the reads has failed. With such runs nothing is
discovered that was not declared:

> **the edges are the declared references** between existing cells, and no run changes the graph.

A failure takes away the edges to cells that do not declare the one that failed, and there are
none. So it makes no difference here whether runs succeed.
-/

set_option autoImplicit false

namespace Notebook

open Std

variable {V σ : Type}

/-! ## 1. Declared reads -/

/-- The cell is in the table and declares exactly the given references. -/
def Engine.HasInputs (e : Engine V) (id : CellId) (inputs : References) : Prop :=
  ∃ cell, e.cells[id]? = some cell ∧ cell.inputs = inputs

theorem Engine.HasInputs.of_told {e e' : Engine V} {id : CellId} {inputs : References}
    (h : e.HasInputs id inputs) (htold : ∀ c, e'.told c = e.told c) : e'.HasInputs id inputs := by
  obtain ⟨cell, hcell, hinputs⟩ := h
  obtain ⟨cell', hcell', hsame⟩ := exists_cell_of_told (htold id) hcell
  exact ⟨cell', hcell', (Cell.inputs_eq_of_told hsame).trans hinputs⟩

/-- The rest of a run that has read `reads` so far. An output comes only after no read has failed
and all inputs were read. -/
inductive Program.ReadsInputs (context : Context) (inputs : References) :
    List CellId → Bool → Program V σ (Except RunFailure (Output V)) → Prop
  | done {reads : List CellId} {failed : Bool} (state : σ) (outcome : Except RunFailure (Output V))
      (h : outcome.isOk = true → failed = false ∧ ∀ id, inputs.contains id = true → id ∈ reads) :
      ReadsInputs context inputs reads failed (.done state outcome)
  | inspect {reads : List CellId} {failed : Bool} {state : σ}
      {next : σ → (Command.inspect : Command V).Reply → Program V σ (Except RunFailure (Output V))}
      (h : ∀ (s : σ) (e : Engine V), e.HasInputs context.cell inputs →
        ReadsInputs context inputs reads failed (next s e)) :
      ReadsInputs context inputs reads failed (.ask state .inspect next)
  | read {reads : List CellId} {failed : Bool} {state : σ} {id : CellId}
      {next : σ → (Command.read context id : Command V).Reply →
        Program V σ (Except RunFailure (Output V))}
      (hid : inputs.contains id = true)
      (h : ∀ (s : σ) (reply : Except Fault (Output V)),
        ReadsInputs context inputs (id :: reads) (failed || !reply.isOk) (next s reply)) :
      ReadsInputs context inputs reads failed (.ask state (.read context id) next)

/-- The run of each cell reads what the cell declares, with whatever flags and in
whatever state of the runner. -/
def Runner.ReadsInputs (runner : Runner V σ) (e : Engine V) : Prop :=
  ∀ id cell, e.cells[id]? = some cell → ∀ flags state,
    (runner ⟨id⟩ ⟨id, cell.runnableCode, flags⟩ state).ReadsInputs ⟨id⟩ cell.inputs [] false

theorem Runner.ReadsInputs.of_told {runner : Runner V σ} {e e' : Engine V}
    (h : runner.ReadsInputs e) (htold : ∀ c, e'.told c = e.told c) : runner.ReadsInputs e' := by
  intro id cell' hcell' flags state
  obtain ⟨cell, hcell, hsame⟩ := Engine.exists_cell_of_told (htold id).symm hcell'
  rw [← Cell.runnableCode_eq_of_told hsame, ← Cell.inputs_eq_of_told hsame]
  exact h id cell hcell flags state

/-! ## 2. Declared edges -/

namespace Engine

/-- The cell `c` declares a reference to `p`, and `p` is in the table. -/
def Declares (e : Engine V) (p c : CellId) : Prop :=
  e.contains p = true ∧ ∃ cell, e.cells[c]? = some cell ∧ cell.declares p = true

/-- The edges are the declared references between existing cells. -/
def Exact (e : Engine V) : Prop :=
  ∀ p c, (p, c) ∈ e.graph ↔ e.Declares p c

theorem Declares.of_told {e e' : Engine V} (htold : ∀ c, e'.told c = e.told c) {p c : CellId}
    (h : e.Declares p c) : e'.Declares p c := by
  obtain ⟨hin, cell, hcell, hdeclares⟩ := h
  obtain ⟨cell', hcell', hsame⟩ := exists_cell_of_told (htold c) hcell
  refine ⟨?_, cell', hcell', ?_⟩
  · rwa [contains_of_told (htold p)]
  · rw [Cell.declares, Cell.inputs_eq_of_told hsame]
    exact hdeclares

theorem Exact.of_told {e e' : Engine V} (h : e.Exact) (hgraph : e'.graph = e.graph)
    (htold : ∀ c, e'.told c = e.told c) : e'.Exact := by
  intro p c
  rw [hgraph, h p c]
  exact ⟨Declares.of_told htold, Declares.of_told fun c => (htold c).symm⟩

theorem exact_withFlags (flags : RunFlags) : (withFlags flags : Engine V).Exact := by
  intro p c
  constructor
  · exact fun h => absurd h (Graph.not_mem_empty (p, c))
  · rintro ⟨hin, -⟩
    simp [contains, withFlags] at hin

/-- A failure takes no declared edge away. -/
theorem Exact.graph_failRun {e : Engine V} (h : e.Exact) (id : CellId) :
    (e.failRun id).graph = e.graph := by
  apply Graph.ext
  intro p c
  rw [mem_graph_failRun, and_iff_left_iff_imp]
  rintro hedge ⟨rfl, -, hundeclared⟩
  obtain ⟨-, cell, hcell, hdeclares⟩ := (h p c).1 hedge
  rw [hundeclared cell hcell] at hdeclares
  exact Bool.noConfusion hdeclares

theorem declares_update {e : Engine V} {batch : Batch} {p c : CellId} :
    (e.update batch).Declares p c ↔
      ∃ r, batch[c]? = some r ∧ r.inputs.contains p = true ∧ batch.contains p = true := by
  rw [Declares, contains_update, exists_declares_update]
  constructor
  · rintro ⟨hin, r, hr, hinput⟩
    exact ⟨r, hr, hinput, hin⟩
  · rintro ⟨r, hr, hinput, hin⟩
    exact ⟨hin, r, hr, hinput⟩

/-- **A batch leaves no edge but the declared ones.** An edge that was there before comes from a
declaration that the batch would have withdrawn if it did not repeat it. -/
theorem Exact.update {e : Engine V} (h : e.Exact) (batch : Batch) : (e.update batch).Exact := by
  intro p c
  rw [declares_update, mem_graph_update, or_iff_left_iff_imp]
  rintro ⟨hedge, hp, hc, hsame, hkept⟩
  obtain ⟨hpin, cell, hcell, hdeclared⟩ := (h p c).1 hedge
  have hrevision := contains_of_not_mem_leftOut (contains_of_cell hcell) hc
  rw [ExtTreeMap.contains_eq_isSome_getElem?] at hrevision
  obtain ⟨r, hr⟩ := Option.isSome_iff_exists.1 hrevision
  refine ⟨r, hr, ?_, contains_of_not_mem_leftOut hpin hp⟩
  by_contra hnot
  refine hkept (mem_withdrawnBy.2 ⟨r, hr, ?_, ?_, Bool.eq_false_iff.2 hnot⟩)
  · rw [Bool.eq_false_iff]
    exact fun hchanged => hsame (mem_changedBy.2 ⟨r, hr, hchanged⟩)
  · rw [cellOrNew, hcell, Option.getD_some]
    exact hdeclared

end Engine

/-! ## 3. A run leaves the graph alone -/

/-- The edges are the declared references, and each run reads what its cell declares. -/
structure Declared (runner : Runner V σ) (e : Engine V) : Prop where
  exact : e.Exact
  reads : runner.ReadsInputs e

/-- Whatever cell is run, the graph stays the same. -/
def FreshRun.Still (runner : Runner V σ) (fresh : FreshRun V σ) : Prop :=
  ∀ id overrides e s t, Declared runner e → fresh id overrides e s = some t →
    t.engine.graph = e.graph

section

variable {runner : Runner V σ} {fresh : FreshRun V σ} {e e' : Engine V} {s : σ}

theorem Declared.of_told (h : Declared runner e) (hgraph : e'.graph = e.graph)
    (htold : ∀ c, e'.told c = e.told c) : Declared runner e' :=
  ⟨h.exact.of_told hgraph htold, h.reads.of_told htold⟩

/-- What the read of a declared reference can come to. The edge is there before it is recorded. -/
theorem Engine.Exact.readWith_cases (h : e.Exact) {context : Context} {inputs : References}
    (hinputs : e.HasInputs context.cell inputs) {id : CellId} (hid : inputs.contains id = true)
    {t : Turn V σ (Except Fault (Output V))} (ht : readWith fresh context id e s = some t) :
    (∃ fault, t = ⟨.error fault, e, s, [.answered context id (.error fault)]⟩) ∨
    ∃ run, (id, context.cell) ∈ e.graph ∧ executeWith fresh id {} e s = some run ∧
      t = ⟨run.reply.map Output.view, run.engine, run.state,
        .step (.connect id context.cell) :: run.events ++
        [.answered context id (run.reply.map Output.view)]⟩ := by
  obtain ⟨-, rfl⟩ | ⟨-, rfl⟩ | ⟨run, hin, -, hrun, rfl⟩ := Notebook.readWith_cases ht
  · exact .inl ⟨_, rfl⟩
  · exact .inl ⟨_, rfl⟩
  · obtain ⟨cell, hcell, rfl⟩ := hinputs
    have hedge : (id, context.cell) ∈ e.graph := (h id context.cell).2 ⟨hin, cell, hcell, hid⟩
    rw [Engine.apply_connect, Engine.connect_eq_self hedge] at hrun
    exact .inr ⟨run, hedge, hrun, rfl⟩

theorem still_executeWith (h : FreshRun.Still runner fresh) :
    FreshRun.Still runner (executeWith fresh) := by
  intro id overrides e s t hd ht
  obtain ⟨-, rfl⟩ | ⟨cell, -, -, rfl⟩ | ⟨cell, -, -, ht⟩ := executeWith_cases ht
  · rfl
  · rfl
  · exact h id overrides e s t hd ht

theorem graph_of_perform (hf : FreshRun.Framed fresh) (h : FreshRun.Still runner fresh)
    {context : Context} {inputs : References} {reads : List CellId} {failed : Bool}
    {program : Program V σ (Except RunFailure (Output V))}
    (hprogram : program.ReadsInputs context inputs reads failed) (hd : Declared runner e)
    (hinputs : e.HasInputs context.cell inputs) {t : Turn V σ (Except RunFailure (Output V))}
    (ht : perform fresh program e s = some t) : t.engine.graph = e.graph := by
  induction hprogram generalizing e s t with
  | done state outcome _ =>
    rw [perform_done] at ht
    cases ht
    rfl
  | inspect _ ih =>
    rw [perform_inspect] at ht
    exact ih _ e hinputs hd hinputs ht
  | @read reads failed state id next hid _ ih =>
    rw [perform_read] at ht
    obtain ⟨first, hfirst, ht⟩ := Option.bind_eq_some_iff.1 ht
    obtain ⟨second, hsecond, rfl⟩ := Option.map_eq_some_iff.1 ht
    have htold := (frame_of_readWith hf hfirst).told
    have hgraph : first.engine.graph = e.graph := by
      obtain ⟨fault, rfl⟩ | ⟨run, -, hrun, rfl⟩ := hd.exact.readWith_cases hinputs hid hfirst
      · rfl
      · exact still_executeWith h id {} e _ run hd hrun
    exact (ih first.state first.reply (hd.of_told hgraph htold)
      (hinputs.of_told htold) hsecond).trans hgraph

/-- **A run leaves the graph alone**, whether it succeeds or not. -/
theorem still_runFresh (hr : runner.OnlyReads) (limit : Nat) :
    FreshRun.Still runner (runFresh runner limit) := by
  induction limit with
  | zero =>
    intro id overrides e s t _ ht
    obtain ⟨fault, rfl⟩ | ⟨deeper, _, _, _, hlimit, -⟩ := hr.runFresh_cases ht
    · rfl
    · cases hlimit
  | succ limit ih =>
    intro id overrides e s t hd ht
    obtain ⟨fault, rfl⟩ | ⟨deeper, cell, run, cell', hlimit, -, hcell, hrun, hframe, -, -, hend⟩ :=
      hr.runFresh_cases ht
    · rfl
    · cases hlimit
      have hbegin : Declared runner (e.beginRun id) := hd.of_told rfl (e.told_beginRun id)
      have hinputs : e.HasInputs id cell.inputs := ⟨cell, hcell, rfl⟩
      have hgraph : run.engine.graph = e.graph := graph_of_perform (framed_runFresh hr limit) ih
        (hd.reads id cell hcell _ s) hbegin (hinputs.of_told (e.told_beginRun id)) hrun
      have hexact : run.engine.Exact := hbegin.exact.of_told hgraph hframe.told
      rcases hend with ⟨output, -, rfl⟩ | ⟨failure, -, rfl⟩
      · exact hgraph
      · exact (hexact.graph_failRun id).trans hgraph

/-! ## 4. Calls -/

theorem Declared.executeWith (hr : runner.OnlyReads) {limit : Nat} {id : CellId}
    {overrides : FlagOverrides} {t : Turn V σ (Except Fault (Output V))} (hd : Declared runner e)
    (ht : Notebook.executeWith (runFresh runner limit) id overrides e s = some t) :
    Declared runner t.engine :=
  hd.of_told (still_executeWith (still_runFresh hr limit) id overrides e s t hd ht)
    (framed_executeWith (framed_runFresh hr limit) id overrides e s t ht).told

theorem Declared.insert_markStale (hd : Declared runner e) {id : CellId} {cell : Cell V}
    (hcell : e.cells[id]? = some cell) :
    Declared runner { e with cells := e.cells.insert id cell.markStale } :=
  hd.of_told rfl (Engine.told_insert_markStale hcell)

theorem graph_of_runRequestedWith (hr : runner.OnlyReads) {limit : Nat} {request : Request}
    (hd : Declared runner e) {t : Turn V σ (Except Fault (Output V))}
    (ht : runRequestedWith (runFresh runner limit) request e s = some t) :
    t.engine.graph = e.graph := by
  obtain ⟨fault, rfl⟩ | ⟨cell, run, hcell, hrun, rfl⟩ := runRequestedWith_cases ht
  · rfl
  · have hgraph := still_runFresh hr limit _ _ _ _ run (hd.insert_markStale hcell) hrun
    exact hgraph

end

/-- The engine in which the cell of a request is run, if each run reads what its cell declares
then. -/
theorem Engine.Exact.declared_prepared {e : Engine V} (h : e.Exact) {runner : Runner V σ}
    {batch : Batch} (hreads : runner.ReadsInputs (e.update batch)) :
    Declared runner (e.prepared batch) :=
  ⟨(h.update batch).of_told rfl (e.told_prepared batch), hreads.of_told (e.told_prepared batch)⟩

/-- The calls whose runs, if they make any, read what is declared. -/
def Runner.Permits (runner : Runner V σ) (e : Engine V) : Command V → Prop
  | .edit (.update _) => True
  | .edit (.invalidate _) => True
  | .edit .resetDidRun => True
  | .execute _ _ => runner.ReadsInputs e
  | .cascade _ => runner.ReadsInputs e
  | .request asked => runner.ReadsInputs (e.update asked.batch)
  | _ => False

/-- What one call keeps. -/
theorem Engine.Exact.carryOut {runner : Runner V σ} (hr : runner.OnlyReads) {e : Engine V}
    (h : e.Exact) {command : Command V} (hpermits : runner.Permits e command) {limit : Nat} {s : σ}
    {t : Turn V σ command.Reply}
    (ht : Notebook.carryOut (runFresh runner limit) command e s = some t) : t.engine.Exact := by
  cases command with
  | edit operation =>
    cases ht
    cases operation with
    | update batch => exact h.update batch
    | invalidate id =>
      show (e.apply (.edit (.invalidate id))).Exact
      obtain hinvalid | ⟨cell, hcell, hinvalid⟩ := e.apply_invalidate_cases id
      all_goals rw [hinvalid]
      · exact h
      · exact h.of_told rfl (told_insert_markStale hcell)
    | resetDidRun => exact h.of_told rfl e.told_resetDidRun
    | _ => exact hpermits.elim
  | execute id overrides => exact (Declared.executeWith hr ⟨h, hpermits⟩ ht).exact
  | cascade id =>
    have hd : Declared runner e := ⟨h, hpermits⟩
    exact (cascadeWith_keeps (fun _ _ _ _ hd ht => Declared.executeWith hr hd ht) hd ht).exact
  | request request =>
    have ht : requestWith (runFresh runner limit) request e s = some t := ht
    rw [requestWith_apply] at ht
    obtain ⟨first, hfirst, ht⟩ := Option.bind_eq_some_iff.1 ht
    obtain ⟨second, hsecond, rfl⟩ := Option.map_eq_some_iff.1 ht
    have hprepared : Declared runner (e.prepared request.batch) := h.declared_prepared hpermits
    have hmiddle : Declared runner first.engine :=
      hprepared.of_told (graph_of_runRequestedWith hr hprepared hfirst)
        (frame_of_runRequestedWith (framed_runFresh hr limit) hfirst).told
    have hend : Declared runner second.engine :=
      followUpWith_keeps (fun _ _ _ _ hd ht => Declared.executeWith hr hd ht)
        (fun id e hd => hd.of_told rfl (e.told_markDescendantsStale id)) hmiddle hsecond
    exact hend.exact.of_told rfl fun _ => rfl
  | _ => exact hpermits.elim

/-- **The edges are the declared references**, after any history of such calls. -/
theorem Runner.OnlyReads.exact {runner : Runner V σ} (hr : runner.OnlyReads) {flags : RunFlags}
    {events : List (Event V)} {e : Engine V}
    (h : runner.History runner.Permits (.withFlags flags) events e) : e.Exact :=
  h.induct (Engine.exact_withFlags flags) fun _ _ _ _ _ h hpermits ht => h.carryOut hr hpermits ht

end Notebook
