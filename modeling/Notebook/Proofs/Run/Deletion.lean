import Notebook.Proofs.Run.Nesting
import Notebook.Proofs.Run.Provenance
import Notebook.Proofs.Run.Repetition

/-!
# Readers of a cell that is deleted

A batch that leaves a cell out deletes it, with all its edges, before anything else is done.
Staleness spreads along edges, and what spreads it is a change of code. So

> **a deletion is not noticed by the readers**: one that was not stale stays as it is, and goes on
> answering the output that it has made from the deleted cell.

It finds out as soon as it is run again for some other reason. Then its read is
answered that there is no such cell.
-/

set_option autoImplicit false

namespace Notebook

open Std

variable {V σ : Type}

/-! ## 1. Reads of a cell that is not there -/

/-- If there is no cell `d` then there is none afterwards, and every read of it was answered so. -/
def ReadInVain (d : CellId) (e : Engine V) (events : List (Event V)) (e' : Engine V) : Prop :=
  e.contains d = false → e'.contains d = false ∧
    ∀ context reply, .answered context d reply ∈ events → reply = .error (.unknownCell d)

theorem ReadInVain.run {d id : CellId} {e e' e'' : Engine V} {events last : List (Event V)}
    (hinside : ReadInVain d (e.beginRun id) events e')
    (hlast : ∀ context reply, .answered context d reply ∉ last) (htold : e''.told d = e'.told d) :
    ReadInVain d e (.step (.beginRun id) :: events ++ last) e'' := by
  intro h
  rw [← Engine.contains_of_told (e.told_beginRun id d)] at h
  obtain ⟨hend, hanswers⟩ := hinside h
  refine ⟨?_, fun context reply hanswer => ?_⟩
  · rwa [Engine.contains_of_told htold]
  · rw [List.cons_append, List.mem_cons, List.mem_append] at hanswer
    rcases hanswer with hbegin | hanswer | hend
    · cases hbegin
    · exact hanswers context reply hanswer
    · exact absurd hend (hlast context reply)

theorem threaded_readInVain (d : CellId) : Threaded (V := V) (ReadInVain d) where
  nothing e h := ⟨h, by simp⟩
  append hfirst hlater h := by
    obtain ⟨hmiddle, hbefore⟩ := hfirst h
    obtain ⟨hend, hafter⟩ := hlater hmiddle
    refine ⟨hend, fun context reply hanswer => ?_⟩
    rcases List.mem_append.1 hanswer with hanswer | hanswer
    · exact hbefore context reply hanswer
    · exact hafter context reply hanswer
  unknown _ h := by
    refine ⟨h, fun context reply hanswer => ?_⟩
    simp only [List.mem_singleton, Event.answered.injEq] at hanswer
    obtain ⟨-, rfl, rfl⟩ := hanswer
    rfl
  itself hin h := by
    refine ⟨h, fun context reply hanswer => ?_⟩
    simp only [List.mem_singleton, Event.answered.injEq] at hanswer
    obtain ⟨-, rfl, -⟩ := hanswer
    rw [hin] at h
    exact Bool.noConfusion h
  read reply hin _ hinside h := by
    obtain ⟨hend, hanswers⟩ := hinside h
    refine ⟨hend, fun context other hanswer => ?_⟩
    simp only [List.cons_append, List.mem_cons, reduceCtorEq, List.mem_append,
      List.not_mem_nil, or_false, false_or, Event.answered.injEq] at hanswer
    rcases hanswer with hanswer | ⟨-, rfl, -⟩
    · exact hanswers context other hanswer
    · rw [hin] at h
      exact Bool.noConfusion h
  publish output hcell hinside := hinside.run (by simp) (Engine.told_publish hcell output d)
  fail _ hinside := hinside.run (by simp) (Engine.told_failRun _ _ d)

/-! ## 2. The next execution -/

/-- **A deletion is not noticed by the readers.** A batch leaves `d` out, and keeps a cell `c`,
which may have read `d` or not. Then `d` has no edges any more, and `c` is stale just if it was
stale, has a new code, or is fed by a cell with a new code. As long as `c` is not stale it answers
the output that it has stored, and nothing is run. Once it is stale it is run again, and if it
reads `d` then it is answered that there is no such cell. -/
theorem Runner.OnlyReads.deletion_unnoticed {runner : Runner V σ} (hr : runner.OnlyReads)
    {e : Engine V} {batch : Batch} {d c : CellId} (hd : d ∈ e.leftOut batch) {old cell : Cell V}
    (hold : e.cells[c]? = some old) (hcell : (e.update batch).cells[c]? = some cell) :
    (∀ x, (d, x) ∉ (e.update batch).graph ∧ (x, d) ∉ (e.update batch).graph) ∧
    (cell.stale = true ↔ old.stale = true ∨ c ∈ e.changedBy batch ∨
      ∃ id ∈ e.changedBy batch, (e.kept batch).graph.Feeds id c) ∧
    (cell.stale = false → cell.output = old.output ∧ ∀ limit overrides s,
      runner.execute limit c overrides (e.update batch) s =
        some ⟨e.cachedOutput c, e.update batch, s, []⟩) ∧
    (cell.stale = true → cell.forceCached = false → ∀ overrides s, ∃ t,
      (∀ limit, (e.update batch).cells.size ≤ limit →
        runner.execute limit c overrides (e.update batch) s = some t) ∧
      ((e.update batch).graph.hasCycle = true ∧
        t = ⟨.error (.cyclicDependency c), e.update batch, s, []⟩ ∨
        (e.update batch).graph.hasCycle = false ∧ .step (.beginRun c) ∈ t.events ∧
          ∀ context reply, .answered context d reply ∈ t.events →
            reply = .error (.unknownCell d))) := by
  refine ⟨Engine.not_mem_graph_update hd, ?_, fun hfresh => ?_,
    fun hstale hunforced overrides s => ?_⟩
  · rw [Engine.stale_update_iff hcell]
    have hbefore : (∀ other, e.cells[c]? = some other → other.stale = true) ↔ old.stale = true := by
      simp [hold]
    rw [hbefore]
  · obtain ⟨_, -, hsame, -, -, -, -, houtput, -, -⟩ := Engine.fresh_of_update hcell hfresh
    rw [hold] at hsame
    cases hsame
    have hanswer : (e.update batch).cachedOutput c = e.cachedOutput c := by
      rw [Engine.cachedOutput, Engine.cachedOutput, hcell, hold]
      dsimp only
      rw [houtput]
    refine ⟨houtput, fun limit overrides s => ?_⟩
    rw [runner.execute_of_fresh limit overrides s hcell hfresh, hanswer]
  · obtain ⟨t, ht, hcome⟩ := hr.execute_of_stale hcell hstale hunforced overrides s
    refine ⟨t, ht, ?_⟩
    obtain hrefused | ⟨hcycle, hbegun⟩ := hcome
    · exact .inl hrefused
    · have hgone : (e.update batch).contains d = false := by
        rw [Engine.contains_update]
        exact (Engine.mem_leftOut.1 hd).2
      have hvain := (threaded_readInVain d).executeWith
        ((threaded_readInVain d).runFresh hr _) c overrides _ s t (ht _ (Nat.le_refl _))
      exact .inr ⟨hcycle, hbegun, (hvain hgone).2⟩

/-! ## 3. An output that outlives its input -/

def readerAlone : Batch := (∅ : Batch).insert ⟨1⟩ (.ofCode "reader")

/-- Cell 1 has read cell 0, which is then left out. -/
theorem readOnce_leaves : ∃ events e old cell,
    heedless.History (fun _ command => command.FromOutside) .new events e ∧ MadeFrom [] events ∧
    ⟨0⟩ ∈ e.leftOut readerAlone ∧ e.cells[(⟨1⟩ : CellId)]? = some old ∧
    (e.update readerAlone).cells[(⟨1⟩ : CellId)]? = some cell ∧ cell.stale = false ∧
    cell.forceCached = false ∧ (e.update readerAlone).cachedOutput ⟨1⟩ = .ok (.plain ()) := by
  obtain ⟨⟨events, e⟩, hsession, hlater⟩ :
      ∃ found, heedless.session 2 readOnce .new () = some found ∧
      (decide (MadeFrom [] found.1 ∧ ⟨0⟩ ∈ found.2.leftOut readerAlone ∧
          found.2.contains ⟨1⟩ = true ∧ ((found.2.update readerAlone).cells[(⟨1⟩ : CellId)]?).any
            (fun cell => !cell.stale && !cell.forceCached) = true ∧
          (found.2.update readerAlone).cachedOutput ⟨1⟩ = .ok (.plain ()))) = true :=
    (Option.any_eq_true _ _).1 (by decide +kernel)
  obtain ⟨hread, hout, hin, hkept, hstored⟩ := of_decide_eq_true hlater
  obtain ⟨old, hold⟩ := Engine.exists_cell_of_contains hin
  simp only [Option.any_eq_true, Bool.and_eq_true, Bool.not_eq_true'] at hkept
  obtain ⟨cell, hcell, hfresh, hunforced⟩ := hkept
  have hstart : heedless.History (fun _ command => command.FromOutside) .new [] .new := .start
  have hhistory := hstart.append_session
    (fun command hcommand _ => readOnce_fromOutside command hcommand) hsession
  exact ⟨events, e, old, cell, hhistory, hread, hout, hold, hcell, hfresh, hunforced, hstored⟩

/-- Left alone, the reader of the deleted cell answers the output that it has stored. -/
theorem readOnce_deletion_unnoticed :
    ∃ (e : Engine Unit) (old cell : Cell Unit), ⟨0⟩ ∈ e.leftOut readerAlone ∧
    e.cells[(⟨1⟩ : CellId)]? = some old ∧
    (e.update readerAlone).cells[(⟨1⟩ : CellId)]? = some cell ∧
    cell.stale = false ∧ heedless.execute 2 ⟨1⟩ {} (e.update readerAlone) () =
      some ⟨e.cachedOutput ⟨1⟩, e.update readerAlone, (), []⟩ := by
  obtain ⟨events, e, old, cell, -, -, hout, hold, hcell, hfresh, -, -⟩ := readOnce_leaves
  obtain ⟨-, -, hkept, -⟩ := heedless_onlyReads.deletion_unnoticed hout hold hcell
  exact ⟨e, old, cell, hout, hold, hcell, hfresh, (hkept hfresh).2 2 {} ()⟩

/-- **An output outlives its input**: cell 1 has read cell 0, which is then deleted. Cell 1 is not
stale, and its next execution answers the output that it has made from cell 0. -/
theorem readOnce_outlives : ∃ events e cell,
    heedless.History (fun _ command => command.FromOutside) .new events e ∧ MadeFrom [] events ∧
    ⟨0⟩ ∈ e.leftOut readerAlone ∧ (e.update readerAlone).cells[(⟨1⟩ : CellId)]? = some cell ∧
    cell.stale = false ∧ cell.forceCached = false ∧
    heedless.execute 2 ⟨1⟩ {} (e.update readerAlone) () =
      some ⟨.ok (.plain ()), e.update readerAlone, (), []⟩ := by
  obtain ⟨events, e, -, cell, hhistory, hread, hout, -, hcell, hfresh, hunforced, hstored⟩ :=
    readOnce_leaves
  refine ⟨events, e, cell, hhistory, hread, hout, hcell, hfresh, hunforced, ?_⟩
  rw [heedless.execute_of_fresh 2 {} () hcell hfresh, hstored]

end Notebook
