import Notebook.Proofs.Run.Readers

/-!
# What all runs have in common

The operations of a runner that only reads are made of very little. A read records an edge, and
then the cell that is read may be run. A run begins, goes on with reads, and ends with a
publication or with a failure. So it takes few facts to show that something holds between the
engine before an operation, what is noted of it, and the engine after it:

> a relation that **reads and runs** have as soon as what happens inside them has it, and that
> **sequences** have if their parts do, is one of every operation, however deep runs nest.

What was known of the runner is used up here. Whoever needs a fact about all runs states it as
such a relation and proves the few facts, none of which mentions a program.
-/

set_option autoImplicit false

namespace Notebook

open Std

variable {V σ α : Type}

/-- A relation between the engine before, the notes and the engine after that reads, runs and
sequences keep. -/
structure Threaded (R : Engine V → List (Event V) → Engine V → Prop) : Prop where
  nothing : ∀ e, R e [] e
  append : ∀ {e e' e'' : Engine V} {events later : List (Event V)}, R e events e' → R e' later e'' →
    R e (events ++ later) e''
  unknown : ∀ {e : Engine V} {context : Context} {id : CellId}, e.contains id = false →
    R e [.answered context id (.error (.unknownCell id))] e
  itself : ∀ {e : Engine V} {context : Context}, e.contains context.cell = true →
    R e [.answered context context.cell (.error (.cyclicDependency context.cell))] e
  read : ∀ {e e' : Engine V} {context : Context} {id : CellId} {events : List (Event V)}
    (reply : Except Fault (Output V)), e.contains id = true → e.contains context.cell = true →
    R (e.connect id context.cell) events e' →
    R e (.step (.connect id context.cell) :: events ++ [.answered context id reply]) e'
  publish : ∀ {e e' : Engine V} {id : CellId} {cell : Cell V} {events : List (Event V)}
    (output : Output V), e'.cells[id]? = some cell → R (e.beginRun id) events e' →
    R e (.step (.beginRun id) :: events ++
        [.step (.write ⟨id⟩ id output), .step (.resume e.executing)])
      ((e'.publish id cell output).resume e.executing)
  fail : ∀ {e e' : Engine V} {id : CellId} {cell : Cell V} {events : List (Event V)},
    e'.cells[id]? = some cell → R (e.beginRun id) events e' →
    R e (.step (.beginRun id) :: events ++ [.step (.failRun id), .step (.resume e.executing)])
      ((e'.failRun id).resume e.executing)

def FreshRun.Keeps (R : Engine V → List (Event V) → Engine V → Prop) (fresh : FreshRun V σ) :
    Prop :=
  ∀ id overrides e s t, fresh id overrides e s = some t → R e t.events t.engine

namespace Threaded

variable {R : Engine V → List (Event V) → Engine V → Prop} {fresh : FreshRun V σ}

theorem executeWith (h : Threaded R) (hfresh : FreshRun.Keeps R fresh) :
    FreshRun.Keeps R (executeWith fresh) := by
  intro id overrides e s t ht
  obtain ⟨-, rfl⟩ | ⟨cell, -, -, rfl⟩ | ⟨cell, -, -, ht⟩ := executeWith_cases ht
  · exact h.nothing e
  · exact h.nothing e
  · exact hfresh id overrides e s t ht

theorem readWith (h : Threaded R) (hfresh : FreshRun.Keeps R fresh) {context : Context}
    {id : CellId} {e : Engine V} {s : σ} {t : Turn V σ (Except Fault (Output V))}
    (hcontext : e.contains context.cell = true) (ht : readWith fresh context id e s = some t) :
    R e t.events t.engine := by
  obtain ⟨hout, rfl⟩ | ⟨rfl, rfl⟩ | ⟨run, hin, -, hrun, rfl⟩ := readWith_cases ht
  · exact h.unknown hout
  · exact h.itself hcontext
  · exact h.read _ hin hcontext (h.executeWith hfresh id {} _ s run hrun)

theorem perform (h : Threaded R) (hframe : FreshRun.Framed fresh) (hfresh : FreshRun.Keeps R fresh)
    {context : Context} {program : Program V σ α} (hprogram : program.OnlyReads context)
    {e : Engine V} {s : σ} {t : Turn V σ α} (hcontext : e.contains context.cell = true)
    (ht : perform fresh program e s = some t) : R e t.events t.engine := by
  induction hprogram generalizing e s t with
  | done state value =>
    rw [perform_done] at ht
    cases ht
    exact h.nothing e
  | inspect _ ih =>
    rw [perform_inspect] at ht
    exact ih _ _ hcontext ht
  | read _ ih =>
    rw [perform_read] at ht
    obtain ⟨first, hfirst, ht⟩ := Option.bind_eq_some_iff.1 ht
    obtain ⟨second, hsecond, rfl⟩ := Option.map_eq_some_iff.1 ht
    -- The cell on whose behalf reads are made stays in the table.
    have hmiddle : first.engine.contains context.cell = true := by
      rwa [(frame_of_readWith hframe hfirst).contains]
    exact h.append (h.readWith hfresh hcontext hfirst) (ih _ _ hmiddle hsecond)

/-- **However deep runs nest**, the relation holds between before and after. -/
theorem runFresh (h : Threaded R) {runner : Runner V σ} (hr : runner.OnlyReads) (limit : Nat) :
    FreshRun.Keeps R (runFresh runner limit) := by
  induction limit with
  | zero =>
    intro id overrides e s t ht
    obtain ⟨fault, rfl⟩ | ⟨deeper, _, _, _, hlimit, -⟩ := hr.runFresh_cases ht
    · exact h.nothing e
    · cases hlimit
  | succ limit ih =>
    intro id overrides e s t ht
    obtain ⟨fault, rfl⟩ | ⟨deeper, cell, run, cell', hlimit, -, hcell, hrun, -, hcell', -, hend⟩ :=
      hr.runFresh_cases ht
    · exact h.nothing e
    · cases hlimit
      have hin : (e.beginRun id).contains id = true := by
        rw [Engine.contains_of_told (e.told_beginRun id id)]
        exact Engine.contains_of_cell hcell
      have hinside := h.perform (framed_runFresh hr limit) ih
        (hr.programOf id overrides e s cell) hin hrun
      obtain ⟨output, -, rfl⟩ | ⟨failure, -, rfl⟩ := hend
      · exact h.publish output hcell' hinside
      · exact h.fail hcell' hinside

end Threaded

end Notebook
