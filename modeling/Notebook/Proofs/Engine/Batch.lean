import Notebook.Proofs.Engine.Cells

/-!
# What a batch does

A batch is applied in four passes, and cells are compared, revised and cut off on the
way. Here the result is described at once, cell by cell and edge by edge, in terms of
the engine before the batch:

> **a cell after the batch** is the revised cell, stale besides if a cell with a new code feeds
> it; **an edge after the batch** is declared, or was there before and neither end was left out,
> its child has its old code, and it was not withdrawn.

The cells with a new code are cut off one after the other, each in the graph that the ones before
it have left. This makes no difference: a path from a cut off cell can only be broken at another
cut off cell, and then what lies behind is reached from there.
-/

set_option autoImplicit false

namespace Notebook

open Std

variable {V : Type}

/-! ## 1. Cells that are left out -/

namespace Engine

/-- The engine without the cells that the batch leaves out. -/
def kept (e : Engine V) (batch : Batch) : Engine V :=
  (e.leftOut batch).foldl removeCell e

theorem mem_leftOut {e : Engine V} {batch : Batch} {id : CellId} :
    id ∈ e.leftOut batch ↔ e.contains id = true ∧ batch.contains id = false := by
  rw [leftOut, List.mem_filter, ExtTreeMap.mem_keys, Bool.not_eq_true']
  rfl

/-- A cell that a batch does not leave out has a revision in it. -/
theorem contains_of_not_mem_leftOut {e : Engine V} {batch : Batch} {id : CellId}
    (hin : e.contains id = true) (h : id ∉ e.leftOut batch) : batch.contains id = true := by
  by_contra hnot
  exact h (mem_leftOut.2 ⟨hin, Bool.eq_false_iff.2 hnot⟩)

theorem not_mem_leftOut {e : Engine V} {batch : Batch} {id : CellId} {r : Revision}
    (h : batch[id]? = some r) : id ∉ e.leftOut batch := by
  intro hid
  have hnot := (mem_leftOut.1 hid).2
  rw [ExtTreeMap.contains_eq_isSome_getElem?, h] at hnot
  exact Bool.noConfusion hnot

theorem getElem?_foldl_removeCell (ids : List CellId) (e : Engine V) (c : CellId) :
    (ids.foldl removeCell e).cells[c]? = if c ∈ ids then none else e.cells[c]? := by
  induction ids generalizing e with
  | nil => simp
  | cons id ids ih =>
    rw [List.foldl_cons, ih, removeCell, ExtTreeMap.getElem?_erase]
    by_cases hc : c = id
    · subst hc
      simp
    · simp [hc, Ne.symm hc]

theorem mem_graph_foldl_removeCell {ids : List CellId} {e : Engine V} {p c : CellId} :
    (p, c) ∈ (ids.foldl removeCell e).graph ↔ (p, c) ∈ e.graph ∧ p ∉ ids ∧ c ∉ ids := by
  induction ids generalizing e with
  | nil => simp
  | cons id ids ih =>
    rw [List.foldl_cons, ih, removeCell, Graph.mem_removeNode, List.mem_cons, List.mem_cons,
      not_or, not_or]
    constructor
    · rintro ⟨⟨h, hp, hc⟩, hps, hcs⟩
      exact ⟨h, ⟨hp, hps⟩, hc, hcs⟩
    · rintro ⟨h, ⟨hp, hps⟩, hc, hcs⟩
      exact ⟨⟨h, hp, hc⟩, hps, hcs⟩

theorem getElem?_kept (e : Engine V) (batch : Batch) (c : CellId) :
    (e.kept batch).cells[c]? = if batch.contains c then e.cells[c]? else none := by
  rw [kept, getElem?_foldl_removeCell]
  cases hbatch : batch.contains c with
  | true =>
    have hc : c ∉ e.leftOut batch := fun h => by
      rw [(mem_leftOut.1 h).2] at hbatch
      exact Bool.noConfusion hbatch
    rw [if_neg hc]
    rfl
  | false =>
    cases hcell : e.cells[c]? with
    | none => simp
    | some cell => simp [mem_leftOut, contains_of_cell hcell, hbatch]

theorem mem_graph_kept {e : Engine V} {batch : Batch} {p c : CellId} :
    (p, c) ∈ (e.kept batch).graph ↔ (p, c) ∈ e.graph ∧ p ∉ e.leftOut batch ∧ c ∉ e.leftOut batch :=
  mem_graph_foldl_removeCell

theorem mem_changedBy {e : Engine V} {batch : Batch} {id : CellId} :
    id ∈ e.changedBy batch ↔ ∃ r, batch[id]? = some r ∧ (e.cellOrNew id).changedBy r = true := by
  simp only [changedBy, List.mem_map, List.mem_filter, Prod.exists, exists_and_right,
    exists_eq_right, ExtTreeMap.mem_toList_iff_getElem?_eq_some]

theorem mem_withdrawnBy {e : Engine V} {batch : Batch} {p c : CellId} :
    (p, c) ∈ e.withdrawnBy batch ↔ ∃ r, batch[c]? = some r ∧ (e.cellOrNew c).changedBy r = false ∧
      (e.cellOrNew c).declares p = true ∧ r.inputs.contains p = false := by
  simp only [withdrawnBy, List.mem_flatMap, List.mem_filter, List.mem_map, Prod.exists,
    Prod.mk.injEq,
    ExtTreeMap.mem_toList_iff_getElem?_eq_some, ExtTreeMap.mem_keys, Bool.not_eq_true',
    Cell.declares]
  constructor
  · rintro ⟨d, r, ⟨hr, hsame⟩, q, ⟨hq, hnot⟩, rfl, rfl⟩
    exact ⟨r, hr, hsame, hq, hnot⟩
  · rintro ⟨r, hr, hsame, hp, hnot⟩
    exact ⟨c, r, ⟨hr, hsame⟩, p, ⟨hp, hnot⟩, rfl, rfl⟩

/-- The batch deletes the cell or changes its persistent code. -/
def Uproots (e : Engine V) (batch : Batch) (c : CellId) : Prop :=
  c ∈ e.leftOut batch ∨ c ∈ e.changedBy batch

/-- For the cells of the batch nothing has changed yet. -/
theorem cellOrNew_kept {e : Engine V} {batch : Batch} {id : CellId} {r : Revision}
    (h : batch[id]? = some r) : (e.kept batch).cellOrNew id = e.cellOrNew id := by
  rw [cellOrNew, getElem?_kept, ExtTreeMap.contains_eq_isSome_getElem?, h]
  rfl

theorem changedBy_kept (e : Engine V) (batch : Batch) :
    (e.kept batch).changedBy batch = e.changedBy batch := by
  rw [changedBy, changedBy]
  congr 1
  refine List.filter_congr fun entry hentry => ?_
  rw [cellOrNew_kept (ExtTreeMap.mem_toList_iff_getElem?_eq_some.1 hentry)]

theorem mem_withdrawnBy_kept {e : Engine V} {batch : Batch} {p c : CellId} :
    (p, c) ∈ (e.kept batch).withdrawnBy batch ↔ (p, c) ∈ e.withdrawnBy batch := by
  rw [mem_withdrawnBy, mem_withdrawnBy]
  refine exists_congr fun r => and_congr_right fun hr => ?_
  rw [cellOrNew_kept hr]

theorem getElem?_revised_kept (e : Engine V) (batch : Batch) (c : CellId) :
    ((e.kept batch).revised batch)[c]? = (batch[c]?).map fun r => (e.cellOrNew c).revise r := by
  rw [revised, ExtTreeMap.getElem?_map]
  cases hr : batch[c]? with
  | none => rfl
  | some r => rw [Option.map_some, Option.map_some, cellOrNew_kept hr]

/-! ## 2. Cells with a new code -/

/-- Without the edges into a node, a node is still reached from where it was, or from that node. -/
theorem feeds_removeParents {g : Graph} {node a c : CellId} (h : g.Feeds a c) (hc : c ≠ node) :
    (g.removeParents node).2.Feeds a c ∨ (g.removeParents node).2.Feeds node c := by
  induction h with
  | single hac => exact .inl (.single (Graph.mem_removeParents.2 ⟨hac, hc⟩))
  | @tail b c _ hbc ih =>
    have hedge := Graph.mem_removeParents.2 ⟨hbc, hc⟩
    by_cases hb : b = node
    · subst hb
      exact .inr (.single hedge)
    · rcases ih hb with h | h
      · exact .inl (h.tail hedge)
      · exact .inr (h.tail hedge)

theorem mem_graph_foldl_disconnect {ids : List CellId} {e : Engine V} {p c : CellId} :
    (p, c) ∈ (ids.foldl disconnect e).graph ↔ (p, c) ∈ e.graph ∧ c ∉ ids := by
  induction ids generalizing e with
  | nil => simp
  | cons id ids ih =>
    rw [List.foldl_cons, ih, List.mem_cons, not_or, ← and_assoc]
    exact and_congr_left fun _ => Graph.mem_removeParents

/-- One of the cells feeds `c`. -/
def FedBy (g : Graph) (ids : List CellId) (c : CellId) : Bool :=
  ids.any fun id => decide (c ∈ g.descendants id)

theorem fedBy_eq_true {g : Graph} {ids : List CellId} {c : CellId} :
    FedBy g ids c = true ↔ ∃ id ∈ ids, g.Feeds id c := by
  simp only [FedBy, List.any_eq_true, decide_eq_true_eq, Graph.mem_descendants_iff]

theorem getElem?_disconnect (e : Engine V) (id c : CellId) :
    (e.disconnect id).cells[c]? = (e.cells[c]?).map fun cell =>
      if c ∈ (e.graph.removeParents id).2.descendants id then cell.markStale else cell :=
  getElem?_markDescendantsStale _ id c

/-- **Cutting off several stale cells**, one after the other, makes everything stale that one of
them fed. -/
theorem getElem?_foldl_disconnect {ids : List CellId} {e : Engine V}
    (hstale : ∀ id ∈ ids, ∀ cell, e.cells[id]? = some cell → cell.stale = true) (c : CellId) :
    (ids.foldl disconnect e).cells[c]? =
      (e.cells[c]?).map fun cell => if FedBy e.graph ids c then cell.markStale else cell := by
  induction ids generalizing e with
  | nil => simp [FedBy]
  | cons id ids ih =>
    have hstale' : ∀ other ∈ ids, ∀ cell, (e.disconnect id).cells[other]? = some cell →
        cell.stale = true := by
      intro other hother cell hcell
      rw [getElem?_disconnect] at hcell
      obtain ⟨before, hbefore, rfl⟩ := Option.map_eq_some_iff.1 hcell
      split
      · rfl
      · exact hstale other (List.mem_cons_of_mem _ hother) before hbefore
    rw [List.foldl_cons, ih hstale', getElem?_disconnect, Option.map_map]
    cases hcell : e.cells[c]? with
    | none => rw [Option.map_none, Option.map_none]
    | some cell =>
      rw [Option.map_some, Option.map_some, Function.comp_apply]
      congr 1
      -- A cell that is stale already is not changed by any of this.
      by_cases hold : cell.stale = true
      · have hmark : cell.markStale = cell := by rw [Cell.markStale, ← hold]
        simp [hmark]
      have hc : c ≠ id := fun h => hold (hstale id List.mem_cons_self cell (h ▸ hcell))
      have hfed : FedBy e.graph (id :: ids) c = true ↔
          (e.graph.removeParents id).2.Feeds id c ∨
            FedBy (e.graph.removeParents id).2 ids c = true := by
        rw [fedBy_eq_true, fedBy_eq_true]
        constructor
        · rintro ⟨y, hy, hyc⟩
          rcases feeds_removeParents hyc hc with h | h
          · rcases List.mem_cons.1 hy with rfl | hy
            · exact .inl h
            · exact .inr ⟨y, hy, h⟩
          · exact .inl h
        · have hsub : ∀ p c, (p, c) ∈ (e.graph.removeParents id).2 →
              (p, c) ∈ e.graph := fun p c h =>
            (Graph.mem_removeParents.1 h).1
          rintro (h | ⟨y, hy, h⟩)
          · exact ⟨id, List.mem_cons_self, h.mono hsub⟩
          · exact ⟨y, List.mem_cons_of_mem _ hy, h.mono hsub⟩
      have hgraph : (e.disconnect id).graph = (e.graph.removeParents id).2 := rfl
      rw [hgraph]
      by_cases hfirst : c ∈ (e.graph.removeParents id).2.descendants id
      · simp only [if_pos hfirst, if_pos (hfed.2 (.inl (Graph.mem_descendants_iff.1 hfirst)))]
        split <;> rfl
      · by_cases hrest : FedBy (e.graph.removeParents id).2 ids c = true
        · simp only [if_neg hfirst, if_pos hrest, if_pos (hfed.2 (.inr hrest))]
        · have hnone : ¬ FedBy e.graph (id :: ids) c = true := fun h =>
            (hfed.1 h).elim (fun h => hfirst (Graph.mem_descendants_iff.2 h)) hrest
          simp only [if_neg hfirst, if_neg hrest, if_neg hnone]

/-! ## 3. The whole batch -/

theorem update_eq (e : Engine V) (batch : Batch) :
    e.update batch =
      let told := (e.changedBy batch).foldl disconnect
        { e.kept batch with cells := (e.kept batch).revised batch }
      { told with
        graph := (told.graph.removeEdges ((e.kept batch).withdrawnBy batch)).addEdges
          told.declaredEdges } := by
  have hkept : (e.leftOut batch).foldl removeCell e = e.kept batch := rfl
  rw [update, hkept, changedBy_kept]

@[simp] theorem inputs_revise (cell : Cell V) (r : Revision) :
    (cell.revise r).inputs = r.inputs := by
  rw [Cell.revise]
  split <;> rfl

@[simp] theorem forceCached_revise (cell : Cell V) (r : Revision) :
    (cell.revise r).forceCached = r.forceCached := by
  rw [Cell.revise]
  split <;> rfl

@[simp] theorem running_revise (cell : Cell V) (r : Revision) :
    (cell.revise r).running = cell.running := by
  rw [Cell.revise]
  split <;> rfl

@[simp] theorem didRun_revise (cell : Cell V) (r : Revision) :
    (cell.revise r).didRun = cell.didRun := by
  rw [Cell.revise]
  split <;> rfl

/-- A revision that carries a persistent code leaves the cell with it. -/
theorem persistentCode_revise (cell : Cell V) {r : Revision} (h : r.persistentCode.isSome = true) :
    (cell.revise r).persistentCode = r.persistentCode := by
  rw [Cell.revise]
  split
  · rfl
  · rename_i hsame
    rw [Cell.changedBy, h, Bool.true_and, bne_iff_ne, ne_eq, not_not] at hsame
    exact hsame.symm

/-- Without a new code the cell keeps its code, its output and its staleness. -/
theorem revise_of_unchanged {cell : Cell V} {r : Revision} (h : cell.changedBy r = false) :
    (cell.revise r).persistentCode = cell.persistentCode ∧ (cell.revise r).output = cell.output ∧
      (cell.revise r).stale = cell.stale := by
  rw [Cell.revise, if_neg (by simp [h])]
  exact ⟨rfl, rfl, rfl⟩

theorem output_revise (cell : Cell V) (r : Revision) :
    (cell.revise r).output = if cell.changedBy r then none else cell.output := by
  rw [Cell.revise]
  split <;> rfl

theorem stale_revise {cell : Cell V} {r : Revision} (h : cell.changedBy r = true) :
    (cell.revise r).stale = true := by
  rw [Cell.revise, if_pos h]

/-- **A cell after the batch.** -/
theorem getElem?_update (e : Engine V) (batch : Batch) (c : CellId) :
    (e.update batch).cells[c]? = (batch[c]?).map fun r =>
      if FedBy (e.kept batch).graph (e.changedBy batch) c then ((e.cellOrNew c).revise r).markStale
      else (e.cellOrNew c).revise r := by
  have hstale : ∀ id ∈ e.changedBy batch, ∀ cell, ((e.kept batch).revised batch)[id]? = some cell →
      cell.stale = true := by
    intro id hid cell hcell
    obtain ⟨r, hr, hchanged⟩ := mem_changedBy.1 hid
    rw [getElem?_revised_kept, hr] at hcell
    cases hcell
    exact stale_revise hchanged
  rw [update_eq]
  show ((e.changedBy batch).foldl disconnect
    { e.kept batch with cells := (e.kept batch).revised batch }).cells[c]? = _
  rw [getElem?_foldl_disconnect hstale, getElem?_revised_kept, Option.map_map]
  rfl

theorem contains_update (e : Engine V) (batch : Batch) (c : CellId) :
    (e.update batch).contains c = batch.contains c := by
  rw [contains, ExtTreeMap.contains_eq_isSome_getElem?, getElem?_update, Option.isSome_map,
    ExtTreeMap.contains_eq_isSome_getElem?]

/-- What a cell declares after the batch is what the batch says. -/
theorem inputs_of_getElem?_update {e : Engine V} {batch : Batch} {c : CellId} {cell : Cell V}
    (h : (e.update batch).cells[c]? = some cell) :
    ∃ r, batch[c]? = some r ∧ cell.inputs = r.inputs := by
  rw [getElem?_update] at h
  obtain ⟨r, hr, rfl⟩ := Option.map_eq_some_iff.1 h
  refine ⟨r, hr, ?_⟩
  split
  · exact inputs_revise _ r
  · exact inputs_revise _ r

/-- A cell declares after the batch what the batch declares for it. -/
theorem exists_declares_update {e : Engine V} {batch : Batch} {p c : CellId} :
    (∃ cell, (e.update batch).cells[c]? = some cell ∧ cell.declares p = true) ↔
      ∃ r, batch[c]? = some r ∧ r.inputs.contains p = true := by
  constructor
  · rintro ⟨cell, hcell, hp⟩
    obtain ⟨r, hr, hinputs⟩ := inputs_of_getElem?_update hcell
    rw [Cell.declares, hinputs] at hp
    exact ⟨r, hr, hp⟩
  · rintro ⟨r, hr, hp⟩
    obtain ⟨cell, hcell⟩ : ∃ cell, (e.update batch).cells[c]? = some cell := by
      rw [getElem?_update, hr]
      exact ⟨_, rfl⟩
    obtain ⟨r', hr', hinputs⟩ := inputs_of_getElem?_update hcell
    rw [hr] at hr'
    cases hr'
    rw [← hinputs] at hp
    exact ⟨cell, hcell, hp⟩

/-- **A cell that is not stale after the batch** was in the table before, with the same code and
the same output, and no cell with a new code feeds it. -/
theorem fresh_of_update {e : Engine V} {batch : Batch} {c : CellId} {cell : Cell V}
    (h : (e.update batch).cells[c]? = some cell) (hfresh : cell.stale = false) :
    ∃ old r, e.cells[c]? = some old ∧ batch[c]? = some r ∧ cell = old.revise r ∧ old.stale = false ∧
      cell.persistentCode = old.persistentCode ∧ cell.output = old.output ∧ c ∉ e.changedBy batch ∧
      ∀ id ∈ e.changedBy batch, ¬ (e.kept batch).graph.Feeds id c := by
  rw [getElem?_update] at h
  obtain ⟨r, hr, rfl⟩ := Option.map_eq_some_iff.1 h
  split at hfresh
  · exact absurd hfresh (by simp [Cell.markStale])
  rename_i hfed
  cases hold : e.cells[c]? with
  | none =>
    have hnew : e.cellOrNew c = Cell.new := by rw [cellOrNew, hold, Option.getD_none]
    rw [hnew, Cell.revise] at hfresh
    split at hfresh <;> simp [Cell.new] at hfresh
  | some old =>
    have hcell : e.cellOrNew c = old := by rw [cellOrNew, hold, Option.getD_some]
    rw [hcell] at hfresh ⊢
    have hsame : old.changedBy r = false := by
      rw [Bool.eq_false_iff]
      intro hchanged
      rw [stale_revise hchanged] at hfresh
      exact Bool.noConfusion hfresh
    obtain ⟨hcode, houtput, hstale⟩ := revise_of_unchanged hsame
    refine ⟨old, r, rfl, hr, by rw [if_neg hfed], hstale ▸ hfresh, ?_, ?_, fun hc => ?_,
      fun id hid hfeeds => ?_⟩
    · rw [if_neg hfed, hcode]
    · rw [if_neg hfed, houtput]
    · obtain ⟨r', hr', hchanged⟩ := mem_changedBy.1 hc
      rw [hr] at hr'
      cases hr'
      rw [hcell, hsame] at hchanged
      exact Bool.noConfusion hchanged
    · exact hfed (fedBy_eq_true.2 ⟨id, hid, hfeeds⟩)

/-- **Who is stale after the batch**: what is new or was stale, what has a new code, and what is
fed by a cell with a new code. That a cell is left out makes nothing stale. -/
theorem stale_update_iff {e : Engine V} {batch : Batch} {c : CellId} {cell : Cell V}
    (h : (e.update batch).cells[c]? = some cell) :
    cell.stale = true ↔ (∀ old, e.cells[c]? = some old → old.stale = true) ∨ c ∈ e.changedBy batch ∨
      ∃ id ∈ e.changedBy batch, (e.kept batch).graph.Feeds id c := by
  constructor
  · intro hstale
    by_contra hnot
    simp only [not_or, not_forall, not_exists, not_and] at hnot
    obtain ⟨⟨old, hold, hfresh⟩, hsame, hapart⟩ := hnot
    rw [getElem?_update] at h
    obtain ⟨r, hr, rfl⟩ := Option.map_eq_some_iff.1 h
    have hfed : ¬ FedBy (e.kept batch).graph (e.changedBy batch) c = true := fun hfed => by
      obtain ⟨id, hid, hfeeds⟩ := fedBy_eq_true.1 hfed
      exact hapart id hid hfeeds
    have hcell : e.cellOrNew c = old := by rw [cellOrNew, hold, Option.getD_some]
    have hrevised : old.changedBy r = false := by
      rw [Bool.eq_false_iff, ← hcell]
      exact fun hchanged => hsame (mem_changedBy.2 ⟨r, hr, hchanged⟩)
    rw [if_neg hfed, hcell, (revise_of_unchanged hrevised).2.2] at hstale
    exact hfresh hstale
  · intro hcause
    by_contra hfresh
    obtain ⟨old, r, hold, -, -, holdfresh, -, -, hsame, hapart⟩ :=
      fresh_of_update h (by simpa using hfresh)
    obtain hstale | hchanged | ⟨id, hid, hfeeds⟩ := hcause
    · rw [hstale old hold] at holdfresh
      exact Bool.noConfusion holdfresh
    · exact hsame hchanged
    · exact hapart id hid hfeeds

/-- **An edge after the batch.** -/
theorem mem_graph_update {e : Engine V} {batch : Batch} {p c : CellId} :
    (p, c) ∈ (e.update batch).graph ↔
      (∃ r, batch[c]? = some r ∧ r.inputs.contains p = true ∧ batch.contains p = true) ∨
      (p, c) ∈ e.graph ∧ p ∉ e.leftOut batch ∧ c ∉ e.leftOut batch ∧ c ∉ e.changedBy batch ∧
        (p, c) ∉ e.withdrawnBy batch := by
  have hdeclared : ∀ told : Engine V, (p, c) ∈ told.declaredEdges ↔
      ∃ cell, told.cells[c]? = some cell ∧ cell.inputs.contains p = true ∧
        told.contains p = true := by
    intro told
    simp only [declaredEdges, List.mem_flatMap, List.mem_map, List.mem_filter, Prod.exists,
      Prod.mk.injEq,
      ExtTreeMap.mem_toList_iff_getElem?_eq_some, ExtTreeMap.mem_keys,
      ← ExtTreeMap.contains_iff_mem]
    constructor
    · rintro ⟨d, cell, hcell, q, ⟨hq, hin⟩, rfl, rfl⟩
      exact ⟨cell, hcell, hq, hin⟩
    · rintro ⟨cell, hcell, hp, hin⟩
      exact ⟨c, cell, hcell, p, ⟨hp, hin⟩, rfl, rfl⟩
  have hedges : (p, c) ∈ (e.update batch).graph ↔ (p, c) ∈ (e.update batch).declaredEdges ∨
      ((p, c) ∈ (e.kept batch).graph ∧ c ∉ e.changedBy batch) ∧
        (p, c) ∉ (e.kept batch).withdrawnBy batch := by
    rw [update_eq]
    show (p, c) ∈ Graph.addEdges _ _ ↔ _
    rw [Graph.mem_addEdges, Graph.mem_removeEdges, mem_graph_foldl_disconnect]
    rfl
  rw [hedges, hdeclared, mem_graph_kept, mem_withdrawnBy_kept, contains_update]
  refine or_congr ⟨?_, ?_⟩ ?_
  · rintro ⟨cell, hcell, hp, hin⟩
    obtain ⟨r, hr, hp⟩ := exists_declares_update.1 ⟨cell, hcell, hp⟩
    exact ⟨r, hr, hp, hin⟩
  · rintro ⟨r, hr, hp, hin⟩
    obtain ⟨cell, hcell, hp⟩ := (exists_declares_update (e := e)).2 ⟨r, hr, hp⟩
    exact ⟨cell, hcell, hp, hin⟩
  · simp only [and_assoc]

/-- No edge is left that leads to or from a cell that the batch leaves out. -/
theorem not_mem_graph_update {e : Engine V} {batch : Batch} {d : CellId} (hd : d ∈ e.leftOut batch)
    (c : CellId) : (d, c) ∉ (e.update batch).graph ∧ (c, d) ∉ (e.update batch).graph := by
  have hnot := (mem_leftOut.1 hd).2
  constructor
  · intro hedge
    obtain ⟨-, -, -, hin⟩ | ⟨-, hkept, -⟩ := mem_graph_update.1 hedge
    · rw [hnot] at hin
      exact Bool.noConfusion hin
    · exact hkept hd
  · intro hedge
    obtain ⟨r, hr, -⟩ | ⟨-, -, hkept, -⟩ := mem_graph_update.1 hedge
    · exact not_mem_leftOut hr hd
    · exact hkept hd

/-! ## 4. Links and deletions -/

/-- Whatever else is done for each of the cells, its links are removed. -/
theorem links_foldl {forget : Engine V → CellId → Engine V}
    (hforget : ∀ e id, (forget e id).links = e.links.removeLinks id) (ids : List CellId)
    (e : Engine V) : (ids.foldl forget e).links = ids.foldl Links.removeLinks e.links := by
  induction ids generalizing e with
  | nil => rfl
  | cons id ids ih => rw [List.foldl_cons, List.foldl_cons, ih, hforget]

/-- **The links after the batch**: the cells that are left out lose theirs, and then those with a
new code. -/
theorem links_update (e : Engine V) (batch : Batch) :
    (e.update batch).links =
      (e.leftOut batch ++ e.changedBy batch).foldl Links.removeLinks e.links := by
  have hkept : (e.kept batch).links = (e.leftOut batch).foldl Links.removeLinks e.links :=
    links_foldl (fun _ _ => rfl) _ e
  rw [List.foldl_append, ← hkept, update_eq]
  exact links_foldl (fun _ _ => rfl) _ _

theorem deleted_foldl_removeCell (ids : List CellId) (e : Engine V) :
    (ids.foldl removeCell e).deleted = e.deleted ++ ids := by
  induction ids generalizing e with
  | nil => simp
  | cons id ids ih =>
    rw [List.foldl_cons, ih]
    exact List.append_assoc e.deleted [id] ids

theorem deleted_foldl_disconnect (ids : List CellId) (e : Engine V) :
    (ids.foldl disconnect e).deleted = e.deleted := by
  induction ids generalizing e with
  | nil => rfl
  | cons id ids ih =>
    rw [List.foldl_cons, ih]
    rfl

/-- **The queue after the batch**: the cells that are left out are reported last. -/
theorem deleted_update (e : Engine V) (batch : Batch) :
    (e.update batch).deleted = e.deleted ++ e.leftOut batch := by
  rw [← deleted_foldl_removeCell, update_eq]
  exact deleted_foldl_disconnect _ _

/-- The cells that are left out come in ascending order. -/
theorem sorted_leftOut (e : Engine V) (batch : Batch) :
    (e.leftOut batch).Pairwise fun c d => compare c d = .lt :=
  ExtTreeMap.ordered_keys.filter _

end Engine

end Notebook
