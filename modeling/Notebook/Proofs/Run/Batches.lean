import Notebook.Proofs.Run.Living

/-!
# Batches, said from outside

A batch is compared with the table: some cells are deleted, and some get another persistent code.
Of everything else that the engine goes through on the way nothing shows in the end:

> **a cell is stale after the batch** if it is new, was stale, has another code, or is reached
> from a cell that has, along edges that no deleted cell touches; **table, edges, links and
> deletions** follow from what was there and from what the batch says.

The cells with another code are cut off from what they read, one after the other, and each marks
what it still reaches. All the same it is the graph before these cuts that counts.

Deleting a cell takes it off the stacks of the tags that it defines. That it is on no other stack
is a matter of the engines that steps lead to.
-/

set_option autoImplicit false

namespace Notebook

open Std

variable {V σ : Type}

/-! ## 1. What a batch does to whom -/

theorem Cell.changedBy_eq_true {cell : Cell V} {r : Revision} :
    cell.changedBy r = true ↔
      ∃ code, r.persistentCode = some code ∧ cell.persistentCode ≠ some code := by
  unfold changedBy
  cases r.persistentCode with
  | none => simp
  | some code =>
    rw [Option.isSome_some, Bool.true_and, bne_iff_ne]
    simp only [Option.some.injEq, exists_eq_left']
    exact ne_comm

namespace Engine

variable {e : Engine V} {batch : Batch} {p c d : CellId} {r : Revision}

/-- The cell is in the table, and the batch does not mention it. -/
def Deletes (e : Engine V) (batch : Batch) (d : CellId) : Prop :=
  e.contains d = true ∧ batch.contains d = false

/-- The batch carries a persistent code for the cell, and it is not the stored one. For
a new cell none is stored. -/
def Changes (e : Engine V) (batch : Batch) (c : CellId) : Prop :=
  ∃ r code, batch[c]? = some r ∧ r.persistentCode = some code ∧
    ∀ old, e.cells[c]? = some old → old.persistentCode ≠ some code

/-- The cell `c` declared the reference to `p` before the batch, and does not declare it after. -/
def Withdraws (e : Engine V) (batch : Batch) (p c : CellId) : Prop :=
  (∃ old, e.cells[c]? = some old ∧ old.declares p = true) ∧
    ¬ ∃ r, batch[c]? = some r ∧ r.inputs.contains p = true

/-- An edge that no deleted cell touches. -/
def Remains (e : Engine V) (batch : Batch) (p c : CellId) : Prop :=
  (p, c) ∈ e.graph ∧ ¬ e.Deletes batch p ∧ ¬ e.Deletes batch c

theorem mem_leftOut_iff : d ∈ e.leftOut batch ↔ e.Deletes batch d :=
  mem_leftOut

theorem mem_changedBy_iff : c ∈ e.changedBy batch ↔ e.Changes batch c := by
  have hstored : ∀ code, (e.cellOrNew c).persistentCode ≠ some code ↔
      ∀ old, e.cells[c]? = some old → old.persistentCode ≠ some code := by
    intro code
    unfold cellOrNew
    cases e.cells[c]? with
    | none => simp [Cell.new]
    | some old => simp
  simp only [mem_changedBy, Cell.changedBy_eq_true, hstored, Changes, exists_and_left]

theorem feeds_kept_iff :
    (e.kept batch).graph.Feeds p c ↔ Relation.TransGen (e.Remains batch) p c := by
  have hedges : (fun p c => (p, c) ∈ (e.kept batch).graph) = e.Remains batch := by
    funext p c
    rw [mem_graph_kept, mem_leftOut_iff, mem_leftOut_iff, Remains]
  rw [Graph.Feeds, hedges]

instance (e : Engine V) (batch : Batch) (d : CellId) : Decidable (e.Deletes batch d) :=
  inferInstanceAs (Decidable (_ ∧ _))

instance (e : Engine V) (batch : Batch) (c : CellId) : Decidable (e.Changes batch c) :=
  decidable_of_iff (c ∈ e.changedBy batch) mem_changedBy_iff

instance (e : Engine V) (batch : Batch) (p c : CellId) : Decidable (e.Remains batch p c) :=
  inferInstanceAs (Decidable (_ ∧ _))

/-! ## 2. Cells -/

/-- The cells of the batch are there, and apart from staleness they are as their revisions leave
them. -/
theorem exists_cell_update (e : Engine V) (hr : batch[c]? = some r) :
    ∃ cell, (e.update batch).cells[c]? = some cell ∧
      cell.output = ((e.cellOrNew c).revise r).output ∧
      cell.running = ((e.cellOrNew c).revise r).running ∧
        cell.didRun = ((e.cellOrNew c).revise r).didRun := by
  rw [getElem?_update, hr, Option.map_some]
  split
  · exact ⟨_, rfl, rfl, rfl, rfl⟩
  · exact ⟨_, rfl, rfl, rfl, rfl⟩

theorem changedBy_cellOrNew_iff (hr : batch[c]? = some r) :
    (e.cellOrNew c).changedBy r = true ↔ e.Changes batch c := by
  rw [← mem_changedBy_iff, mem_changedBy, hr]
  simp

/-- **The cells after a batch.** -/
theorem cell_after_batch (e : Engine V) (hr : batch[c]? = some r) :
    ∃ cell, (e.update batch).cells[c]? = some cell ∧
      (cell.stale = true ↔ e.cells[c]? = none ∨ (∃ old, e.cells[c]? = some old ∧ old.stale = true) ∨
        e.Changes batch c ∨ ∃ id, e.Changes batch id ∧ Relation.TransGen (e.Remains batch) id c) ∧
      (cell.output = none ↔ e.cells[c]? = none ∨ e.Changes batch c ∨
        ∃ old, e.cells[c]? = some old ∧ old.output = none) ∧
      ∀ old, e.cells[c]? = some old →
        (¬ e.Changes batch c → cell.output = old.output) ∧ cell.running = old.running ∧
          cell.didRun = old.didRun := by
  obtain ⟨cell, hcell, houtput, hrunning, hdidRun⟩ := e.exists_cell_update hr
  rw [output_revise] at houtput
  rw [running_revise] at hrunning
  rw [didRun_revise] at hdidRun
  simp only [changedBy_cellOrNew_iff hr] at houtput
  refine ⟨cell, hcell, ?_, ?_, ?_⟩
  · simp only [stale_update_iff hcell, mem_changedBy_iff, feeds_kept_iff, ← or_assoc]
    refine or_congr_left (or_congr_left ?_)
    cases e.cells[c]? with
    | none => simp
    | some old => simp
  · rw [houtput]
    unfold cellOrNew
    by_cases hchanges : e.Changes batch c
    · simp [hchanges]
    · cases e.cells[c]? with
      | none => simp [Cell.new]
      | some old => simp [hchanges]
  · intro old hold
    have hbefore : e.cellOrNew c = old := by rw [cellOrNew, hold, Option.getD_some]
    rw [hbefore] at houtput hrunning hdidRun
    exact ⟨fun hsame => by rw [houtput, if_neg hsame], hrunning, hdidRun⟩

/-! ## 3. Table, edges, links and deletions -/

/-- The engine `next` is what a batch makes of the engine `e`. -/
structure AfterBatch (e : Engine V) (batch : Batch) (next : Engine V) : Prop where
  table : ∀ c, next.contains c = batch.contains c
  /-- An edge was there and is affected by nothing, or it is declared now. -/
  edges : ∀ p c, (p, c) ∈ next.graph ↔
    ((p, c) ∈ e.graph ∧ ¬ e.Deletes batch p ∧ ¬ e.Deletes batch c ∧ ¬ e.Changes batch c ∧
      ¬ e.Withdraws batch p c) ∨
    ∃ r, batch[c]? = some r ∧ r.inputs.contains p = true ∧ batch.contains p = true
  definers : ∀ tag c, c ∈ next.links.definers tag ↔
    c ∈ e.links.definers tag ∧ ¬ e.Deletes batch c ∧ ¬ e.Changes batch c
  /-- Who stays on a stack stays in the same order. -/
  stack : ∀ tag, next.links.stack tag =
    (e.links.stack tag).filter fun c => ¬ (e.Deletes batch c ∨ e.Changes batch c)
  deletions : ∃ ids, next.deleted = e.deleted ++ ids ∧ (ids.Pairwise fun c d => compare c d = .lt) ∧
    ∀ d, d ∈ ids ↔ e.Deletes batch d

/-- An edge into a cell that keeps its code is withdrawn if the cell has ceased to declare it. -/
theorem mem_withdrawnBy_iff (hkept : ¬ e.Deletes batch c) (hsame : ¬ e.Changes batch c) :
    (p, c) ∈ e.withdrawnBy batch ↔ e.Withdraws batch p c := by
  rw [mem_withdrawnBy]
  constructor
  · intro h
    obtain ⟨r, hr, -, hdeclared, hnot⟩ := h
    unfold cellOrNew at hdeclared
    cases hold : e.cells[c]? with
    | none =>
      rw [hold] at hdeclared
      simp [Cell.declares, Cell.new] at hdeclared
    | some old =>
      rw [hold] at hdeclared
      refine ⟨⟨old, hold, hdeclared⟩, ?_⟩
      intro hdeclares
      obtain ⟨r', hr', hdeclares⟩ := hdeclares
      obtain rfl : r = r' := Option.some.inj (hr.symm.trans hr')
      rw [hnot] at hdeclares
      exact Bool.noConfusion hdeclares
  · intro h
    obtain ⟨⟨old, hold, hdeclared⟩, hnot⟩ := h
    have hbefore : e.cellOrNew c = old := by rw [cellOrNew, hold, Option.getD_some]
    have hin := contains_of_not_mem_leftOut (contains_of_cell hold) fun h =>
      hkept (mem_leftOut_iff.1 h)
    rw [ExtTreeMap.contains_eq_isSome_getElem?] at hin
    obtain ⟨r, hr⟩ := Option.isSome_iff_exists.1 hin
    refine ⟨r, hr, ?_, hbefore ▸ hdeclared, ?_⟩
    · exact Bool.eq_false_iff.2 fun hchanged =>
        hsame (mem_changedBy_iff.1 (mem_changedBy.2 ⟨r, hr, hchanged⟩))
    · exact Bool.eq_false_iff.2 fun hdeclares => hnot ⟨r, hr, hdeclares⟩

/-- **What a batch makes of an engine** whose stacks hold definers only. -/
theorem afterBatch_of_backed (h : e.links.Backed) (batch : Batch) :
    e.AfterBatch batch (e.update batch) where
  table := contains_update e batch
  edges p c := by
    rw [mem_graph_update, or_comm, mem_leftOut_iff, mem_leftOut_iff, mem_changedBy_iff]
    refine or_congr_left ?_
    refine and_congr_right fun _ => and_congr_right fun _ => and_congr_right fun hkept =>
      and_congr_right fun hsame => ?_
    exact not_congr (mem_withdrawnBy_iff hkept hsame)
  definers tag c := by
    rw [← Links.mem_tagsOf, ← Links.mem_tagsOf, mem_tagsOf_update, Uproots, mem_leftOut_iff,
      mem_changedBy_iff, not_or]
  stack tag := by
    rw [links_update, h.stack_foldl_removeLinks]
    refine List.filter_congr fun c _ => ?_
    simp only [List.mem_append, mem_leftOut_iff, mem_changedBy_iff]
  deletions := ⟨e.leftOut batch, deleted_update e batch, sorted_leftOut e batch,
    fun _ => mem_leftOut_iff⟩

end Engine

/-! ## 4. Histories -/

/-- **Table, edges, links and deletions after a batch**, after any calls with any runner, and at
any moment in their course. -/
theorem Runner.History.after_batch {runner : Runner V σ} {allowed : Engine V → Command V → Prop}
    {flags : RunFlags} {events : List (Event V)} {e : Engine V}
    (h : runner.History allowed (.withFlags flags) events e) :
    (∀ batch, e.AfterBatch batch (e.update batch)) ∧
    ∀ before later, events = before ++ later →
      let now := (Engine.withFlags flags).after before
      ∀ batch, now.AfterBatch batch (now.update batch) := by
  have he : e = (Engine.withFlags flags).after events := h.eq_replay
  constructor
  · rw [he]
    exact Engine.afterBatch_of_backed (Engine.backed_after flags events)
  · intro before later _
    exact Engine.afterBatch_of_backed (Engine.backed_after flags before)

/-- Each cell publishes with the tag `y`. Cells 1, 2 and 3 read the cell before them, and cell 5
stands alone. -/
def chained : List (Command Unit) :=
  .edit (.update ((∅ : Batch).insert ⟨0⟩ (.ofCode "start")
    |>.insert ⟨1⟩ ((Revision.ofCode "old").withInput ⟨0⟩ [])
    |>.insert ⟨2⟩ ((Revision.ofCode "same").withInput ⟨1⟩ [])
    |>.insert ⟨3⟩ ((Revision.ofCode "end").withInput ⟨2⟩ [])
    |>.insert ⟨5⟩ (.ofCode "alone"))) ::
  [⟨0⟩, ⟨1⟩, ⟨2⟩, ⟨3⟩, ⟨5⟩].map fun id => .execute id {}

/-- Cell 1 has another code, and reads itself and the new cell 4. Cell 2 reads nothing any
more, and cell 3 is gone. -/
def rechained : Batch :=
  (∅ : Batch).insert ⟨0⟩ (.ofCode "start")
    |>.insert ⟨1⟩ (((Revision.ofCode "new").withInput ⟨1⟩ []).withInput ⟨4⟩ [])
    |>.insert ⟨2⟩ (.ofCode "same")
    |>.insert ⟨4⟩ (.ofCode "new")
    |>.insert ⟨5⟩ (.ofCode "alone")

/-- Cell 2 keeps its code and its output and is stale: it was reached from cell 1 before the
batch. -/
theorem chained_cell_after_batch :
    ∃ events e, herald.session 1 chained (.withFlags {}) () = some (events, e) ∧
    (e.cells[(⟨2⟩ : CellId)]?).any (fun old => !old.stale) = true ∧
    ∃ cell, (e.update rechained).cells[(⟨2⟩ : CellId)]? = some cell ∧ cell.stale = true ∧
      cell.output = some heralded := by
  obtain ⟨⟨events, e⟩, hsession, hfound⟩ :
      ∃ found, herald.session 1 chained (.withFlags {}) () = some found ∧
      decide ((found.2.cells[(⟨2⟩ : CellId)]?).any (fun old => !old.stale &&
        old.output = some heralded) = true ∧
        found.2.Changes rechained ⟨1⟩ ∧ ¬ found.2.Changes rechained ⟨2⟩ ∧
        found.2.Remains rechained ⟨1⟩ ⟨2⟩) = true :=
    (Option.any_eq_true _ _).1 (by decide +kernel)
  obtain ⟨hbefore, hchanged, hsame, hedge⟩ := of_decide_eq_true hfound
  obtain ⟨old, hold, hstored⟩ := (Option.any_eq_true _ _).1 hbefore
  rw [Bool.and_eq_true, decide_eq_true_eq] at hstored
  have hrevision : rechained[(⟨2⟩ : CellId)]? = some (.ofCode "same") := by decide +kernel
  obtain ⟨cell, hcell, hstale, -, hkept⟩ := e.cell_after_batch hrevision
  refine ⟨events, e, hsession, ?_, cell, hcell, ?_, ?_⟩
  · rw [hold]
    exact hstored.1
  · exact hstale.2 (.inr (.inr (.inr ⟨⟨1⟩, hchanged, .single hedge⟩)))
  · rw [(hkept old hold).1 hsame]
    exact hstored.2

/-- Cell 1 reads the new cell, cell 2 reads nothing, and the cells that keep their code
stay current for the tag. -/
theorem chained_after_batch :
    ∃ events e, herald.session 1 chained (.withFlags {}) () = some (events, e) ∧
    e.graph.edges = [(⟨0⟩, ⟨1⟩), (⟨1⟩, ⟨2⟩), (⟨2⟩, ⟨3⟩)] ∧
    e.links.stack ⟨"y"⟩ = [⟨5⟩, ⟨3⟩, ⟨2⟩, ⟨1⟩, ⟨0⟩] ∧
    (⟨4⟩, ⟨1⟩) ∈ (e.update rechained).graph ∧ (⟨1⟩, ⟨2⟩) ∉ (e.update rechained).graph ∧
    (e.update rechained).links.stack ⟨"y"⟩ = [⟨5⟩, ⟨2⟩, ⟨0⟩] := by
  obtain ⟨⟨events, e⟩, hsession, hfound⟩ :
      ∃ found, herald.session 1 chained (.withFlags {}) () = some found ∧
      decide (found.2.graph.edges = [(⟨0⟩, ⟨1⟩), (⟨1⟩, ⟨2⟩), (⟨2⟩, ⟨3⟩)] ∧
        found.2.links.stack ⟨"y"⟩ = [⟨5⟩, ⟨3⟩, ⟨2⟩, ⟨1⟩, ⟨0⟩] ∧
        (found.2.cells[(⟨2⟩ : CellId)]?).any (fun old => old.declares ⟨1⟩) = true ∧
        (found.2.links.stack ⟨"y"⟩).filter
          (fun c => ¬ (found.2.Deletes rechained c ∨ found.2.Changes rechained c)) =
          [⟨5⟩, ⟨2⟩, ⟨0⟩]) = true :=
    (Option.any_eq_true _ _).1 (by decide +kernel)
  obtain ⟨hedges, hstack, hdeclared, hleft⟩ := of_decide_eq_true hfound
  have hstart : herald.History (fun _ _ => True) (.withFlags {}) [] (.withFlags {}) := .start
  have hhistory := hstart.append_session (fun _ _ _ => trivial) hsession
  have hafter := hhistory.after_batch.1 rechained
  have hwithdrawn : e.Withdraws rechained ⟨1⟩ ⟨2⟩ := by
    refine ⟨(Option.any_eq_true _ _).1 hdeclared, ?_⟩
    intro hdeclares
    obtain ⟨r, hr, hinput⟩ := hdeclares
    have hnone : (rechained[(⟨2⟩ : CellId)]?).all (fun r => !r.inputs.contains ⟨1⟩) = true := by
      decide +kernel
    rw [hr] at hnone
    simp [hinput] at hnone
  refine ⟨events, e, hsession, hedges, hstack, ?_, ?_, (hafter.stack ⟨"y"⟩).trans hleft⟩
  · refine (hafter.edges _ _).2 (.inr ?_)
    exact ⟨((Revision.ofCode "new").withInput ⟨1⟩ []).withInput ⟨4⟩ [], by decide +kernel⟩
  · intro hedge
    rcases (hafter.edges _ _).1 hedge with ⟨-, -, -, -, hnot⟩ | hdeclares
    · exact hnot hwithdrawn
    · obtain ⟨r, hr, hinput, -⟩ := hdeclares
      exact hwithdrawn.2 ⟨r, hr, hinput⟩

end Notebook
