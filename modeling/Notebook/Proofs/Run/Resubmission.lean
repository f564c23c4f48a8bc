import Notebook.Proofs.Run.Saved

/-!
# A notebook is told what it holds already

The front end sends all cells with each request, mostly as it has sent them before, and
sometimes as they were reported last. Such a batch leaves no cell out, changes no code and
withdraws no reference, and each cell is told what it was told before. What is left to see is
that the fourth pass records nothing new. This is a matter of the engines that steps lead to,
and of those that a batch was just applied to:

> **every declared reference to an existing cell is an edge already**, so
> **a batch that tells nothing new changes nothing at all**.

What was computed is kept, and so are the edges that reads have discovered.
-/

set_option autoImplicit false

namespace Notebook

open Std

variable {V σ : Type}

/-! ## 1. Cells -/

namespace Cell

/-- A cell that stays as it is when it is told something has heard it before. -/
theorem told_of_revise {c : Cell V} {r : Revision} (h : c.revise r = c) :
    c.changedBy r = false ∧ c.inputs = r.inputs := by
  constructor
  · rw [← Bool.not_eq_true]
    intro hchanged
    have hcode : r.persistentCode = c.persistentCode := by
      rw [revise, if_pos hchanged] at h
      exact congrArg persistentCode h
    simp [changedBy, hcode] at hchanged
  · rw [← Engine.inputs_revise c r, h]

/-- A cell that is told what it shows stays as it is. -/
theorem revise_snapshot (c : Cell V) (id : CellId) : c.revise (c.snapshot id).toRevision = c := by
  have hsame : c.changedBy (c.snapshot id).toRevision = false := by
    simp [toRevision_snapshot, changedBy, told]
  rw [revise, if_neg (by simp [hsame]), toRevision_snapshot]
  rfl

/-- Told the same a second time, the cell stays as it is. -/
theorem revise_revise (c : Cell V) (r : Revision) : (c.revise r).revise r = c.revise r := by
  have hsame : (c.revise r).changedBy r = false := by
    by_cases hchanged : c.changedBy r = true
    · have hcode : (c.revise r).persistentCode = r.persistentCode := by rw [revise, if_pos hchanged]
      simp [changedBy, hcode]
    · rw [Bool.not_eq_true] at hchanged
      rw [changedBy, (Engine.revise_of_unchanged hchanged).1]
      exact hchanged
  rw [revise, if_neg (by simp [hsame]), revise]
  split <;> rfl

theorem revise_markStale {c : Cell V} {r : Revision} (h : c.revise r = c) :
    c.markStale.revise r = c.markStale := by
  obtain ⟨hsame, -⟩ := told_of_revise h
  have hstale : c.markStale.changedBy r = false := hsame
  rw [revise, if_neg (by simp [hsame])] at h
  rw [revise, if_neg (by simp [hstale])]
  exact congrArg markStale h

end Cell

/-! ## 2. Nothing new -/

namespace Engine

/-- Without cells to delete or to cut off, a batch concerns the cells and the graph only. -/
theorem update_of_unchanged {e : Engine V} {batch : Batch} (hleft : e.leftOut batch = [])
    (hsame : e.changedBy batch = []) :
    e.update batch =
      { e with cells := (e.update batch).cells, graph := (e.update batch).graph } := by
  rw [update, hleft, List.foldl_nil, hsame]
  rfl

/-- The batch mentions the cells of the table, and tells each of them what it was told before. -/
structure Knows (e : Engine V) (batch : Batch) : Prop where
  table : ∀ c, batch.contains c = e.contains c
  told : ∀ (c : CellId) r (cell : Cell V), batch[c]? = some r → e.cells[c]? = some cell →
    cell.revise r = cell

namespace Knows

variable {e : Engine V} {batch : Batch}

/-- The cell that a revision is for. -/
theorem exists_cell (h : e.Knows batch) {c : CellId} {r : Revision} (hr : batch[c]? = some r) :
    ∃ cell, e.cells[c]? = some cell ∧ e.cellOrNew c = cell ∧ cell.revise r = cell := by
  have hin : e.contains c = true := by
    rw [← h.table, ExtTreeMap.contains_eq_isSome_getElem?, hr]
    rfl
  obtain ⟨cell, hcell⟩ := exists_cell_of_contains hin
  exact ⟨cell, hcell, by rw [cellOrNew, hcell, Option.getD_some], h.told c r cell hr hcell⟩

theorem leftOut (h : e.Knows batch) : e.leftOut batch = [] := by
  rw [List.eq_nil_iff_forall_not_mem]
  intro c hc
  obtain ⟨hin, hout⟩ := mem_leftOut.1 hc
  rw [h.table, hin] at hout
  cases hout

theorem changedBy (h : e.Knows batch) : e.changedBy batch = [] := by
  rw [List.eq_nil_iff_forall_not_mem]
  intro c hc
  obtain ⟨r, hr, hchanged⟩ := mem_changedBy.1 hc
  obtain ⟨cell, -, hbefore, hsame⟩ := h.exists_cell hr
  rw [hbefore, (Cell.told_of_revise hsame).1] at hchanged
  cases hchanged

theorem not_mem_withdrawnBy (h : e.Knows batch) (p c : CellId) : (p, c) ∉ e.withdrawnBy batch := by
  intro hwithdrawn
  obtain ⟨r, hr, -, hdeclares, hnot⟩ := mem_withdrawnBy.1 hwithdrawn
  obtain ⟨cell, -, hbefore, hsame⟩ := h.exists_cell hr
  rw [hbefore, Cell.declares, (Cell.told_of_revise hsame).2, hnot] at hdeclares
  cases hdeclares

theorem cells (h : e.Knows batch) : (e.update batch).cells = e.cells := by
  apply ExtTreeMap.ext_getElem?
  intro c
  rw [getElem?_update, h.changedBy]
  cases hr : batch[c]? with
  | none =>
    have hout : e.contains c = false := by
      rw [← h.table, ExtTreeMap.contains_eq_isSome_getElem?, hr]
      rfl
    rw [contains, ExtTreeMap.contains_eq_isSome_getElem?, Option.isSome_eq_false_iff,
      Option.isNone_iff_eq_none] at hout
    rw [hout]
    rfl
  | some r =>
    obtain ⟨cell, hcell, hbefore, hsame⟩ := h.exists_cell hr
    rw [hbefore, hcell]
    exact congrArg some hsame

/-- The edges that were there, and those that are declared. -/
theorem mem_graph (h : e.Knows batch) {p c : CellId} :
    (p, c) ∈ (e.update batch).graph ↔ e.Declares p c ∨ (p, c) ∈ e.graph := by
  have hkept : (p, c) ∈ e.graph ∧ p ∉ e.leftOut batch ∧ c ∉ e.leftOut batch ∧
      c ∉ e.changedBy batch ∧ (p, c) ∉ e.withdrawnBy batch ↔ (p, c) ∈ e.graph := by
    simp [h.leftOut, h.changedBy, h.not_mem_withdrawnBy]
  have hdeclares : (e.update batch).Declares p c ↔ e.Declares p c := by
    rw [Declares, Declares, contains_update, h.table, h.cells]
  rw [mem_graph_update, hkept, ← declares_update, hdeclares]

end Knows

/-- **A batch that tells nothing new changes nothing**, if all that is declared is recorded. -/
theorem Covers.update_eq_self {e : Engine V} (h : e.Covers) {batch : Batch}
    (hknows : e.Knows batch) : e.update batch = e := by
  have hgraph : (e.update batch).graph = e.graph := by
    apply Graph.ext
    intro p c
    rw [hknows.mem_graph]
    exact or_iff_right_of_imp (h p c)
  rw [update_of_unchanged hknows.leftOut hknows.changedBy, hknows.cells, hgraph]

/-! ## 3. The same batch twice -/

/-- After a batch has been applied it tells nothing new. -/
theorem knows_update (e : Engine V) (batch : Batch) : (e.update batch).Knows batch where
  table c := (contains_update e batch c).symm
  told c r cell hr hcell := by
    rw [getElem?_update, hr] at hcell
    have hrevised := (e.cellOrNew c).revise_revise r
    -- The cell is as its revision has left it, or stale besides.
    split at hcell
    all_goals cases hcell
    · exact Cell.revise_markStale hrevised
    · exact hrevised

/-- **A batch that is applied twice in a row** comes to what it comes to when it is
applied once: the second time no cell is deleted or created, no code has changed, no
reference is withdrawn, and each declared one is an edge. This holds of every engine,
those between two steps of a run included. -/
theorem update_update (e : Engine V) (batch : Batch) :
    (e.update batch).update batch = e.update batch :=
  (Covers.update e batch).update_eq_self (e.knows_update batch)

/-! ## 4. The batch of all snapshots -/

/-- What the engine shows, as a batch. -/
def resubmission (e : Engine V) : Batch :=
  Batch.ofSnapshots e.snapshots

theorem getElem?_resubmission (e : Engine V) (c : CellId) :
    e.resubmission[c]? = (e.cells[c]?).map fun cell => (cell.snapshot c).toRevision := by
  rw [resubmission, Batch.ofSnapshots, snapshots, ExtTreeMap.getElem?_map, ExtTreeMap.getElem?_map,
    Option.map_map]
  rfl

theorem knows_resubmission (e : Engine V) : e.Knows e.resubmission where
  table c := by rw [resubmission, Batch.ofSnapshots, snapshots, ExtTreeMap.contains_map,
    ExtTreeMap.contains_map, contains]
  told c r cell hr hcell := by
    rw [getElem?_resubmission, hcell] at hr
    cases hr
    exact cell.revise_snapshot c

/-- **A batch of the engine's own snapshots changes nothing**, if all that is declared is
recorded. -/
theorem Covers.update_resubmission {e : Engine V} (h : e.Covers) : e.update e.resubmission = e :=
  h.update_eq_self e.knows_resubmission

end Engine

/-! ## 5. Histories -/

/-- **A notebook that is told what it shows already stays as it is**, after any calls with any
runner, and at any moment in their course. -/
theorem Runner.History.resubmitted {runner : Runner V σ} {allowed : Engine V → Command V → Prop}
    {flags : RunFlags} {events : List (Event V)} {e : Engine V}
    (h : runner.History allowed (.withFlags flags) events e) :
    e.update (Batch.ofSnapshots e.snapshots) = e ∧
    ∀ before later, events = before ++ later →
      let now := (Engine.withFlags flags).after before
      now.update (Batch.ofSnapshots now.snapshots) = now := by
  have hcovers : ∀ events : List (Event V), ((Engine.withFlags flags).after events).Covers :=
    Engine.after_keeps (fun _ s he => he.apply s) (.withFlags flags)
  have he : e = (Engine.withFlags flags).after events := h.eq_replay
  constructor
  · rw [he]
    exact (hcovers events).update_resubmission
  · intro before later _
    exact (hcovers before).update_resubmission

/-- The stored output is kept, and so is the edge that cell 0 has discovered. -/
theorem mutualReader_resubmitted :
    ∃ events e, mutualReader.session 3 readInCircle (.withFlags {}) () = some (events, e) ∧
    e.cachedOutput ⟨0⟩ = .ok (.plain ()) ∧ e.graph.edges = [(⟨0⟩, ⟨1⟩), (⟨1⟩, ⟨0⟩)] ∧
    e.update (Batch.ofSnapshots e.snapshots) = e := by
  obtain ⟨⟨events, e⟩, hsession, hfound⟩ : ∃ found,
      mutualReader.session 3 readInCircle (.withFlags {}) () = some found ∧
        decide (found.2.cachedOutput ⟨0⟩ = .ok (.plain ()) ∧
          found.2.graph.edges = [(⟨0⟩, ⟨1⟩), (⟨1⟩, ⟨0⟩)]) = true :=
    (Option.any_eq_true _ _).1 (by decide +kernel)
  obtain ⟨hstored, hedges⟩ := of_decide_eq_true hfound
  have hstart : mutualReader.History (fun _ _ => True) (.withFlags {}) [] (.withFlags {}) := .start
  have hhistory := hstart.append_session (fun _ _ _ => trivial) hsession
  exact ⟨events, e, hsession, hstored, hedges, hhistory.resubmitted.1⟩

end Notebook
