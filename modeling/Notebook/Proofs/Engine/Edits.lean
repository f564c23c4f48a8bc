import Notebook.Proofs.Engine.Batch
import Notebook.Proofs.Links.Registry
import Notebook.Proofs.Listing

/-!
# What an edit does

Most edits change marks, flags or links only. The others tell the cells something: a batch does,
and clearing and restoring start anew.

Restoring applies the snapshots as a batch to an engine without cells, and adds the
saved edges afterwards. So what it comes to does not depend on the engine in which it is
done, the run flags excepted:

> **a restored cell** is a new cell that was told what its snapshot shows, and **a restored edge**
> is either declared by a snapshot or saved, between cells that are there.
-/

set_option autoImplicit false

namespace Notebook

open Std

variable {V : Type}

/-! ## 1. Edits that tell the cells nothing -/

/-- An edit that changes marks, flags or links, and tells the cells nothing. -/
def Edit.Silent : Edit → Prop
  | .update _ | .clear | .restore _ => False
  | _ => True

namespace Engine

/-- What deletions and changes of code keep, and what has nothing to do with the table and the
graph, is kept by a batch. -/
theorem update_keeps (holds : Engine V → Prop) (hremove : ∀ e id, holds e → holds (e.removeCell id))
    (hdisconnect : ∀ e id, holds e → holds (e.disconnect id))
    (hother : ∀ e cells graph, holds e → holds { e with cells := cells, graph := graph })
    {e : Engine V} (h : holds e) (batch : Batch) : holds (e.update batch) := by
  have hkept : holds ((e.leftOut batch).foldl removeCell e) :=
    List.foldlRecOn _ removeCell h fun e he id _ => hremove e id he
  exact hother _ _ _ (List.foldlRecOn _ disconnect (hother _ _ _ hkept) fun e he id _ =>
    hdisconnect e id he)

@[simp] theorem executing_update (e : Engine V) (batch : Batch) :
    (e.update batch).executing = e.executing :=
  update_keeps (fun e' => e'.executing = e.executing) (fun _ _ h => h) (fun _ _ h => h)
    (fun _ _ _ h => h) rfl batch

@[simp] theorem flags_update (e : Engine V) (batch : Batch) : (e.update batch).flags = e.flags :=
  update_keeps (fun e' => e'.flags = e.flags) (fun _ _ h => h) (fun _ _ h => h)
    (fun _ _ _ h => h) rfl batch

/-- Changing one cell, but not what it is told. -/
theorem apply_modifyCell {e : Engine V} {id : CellId} {f : Cell V → Cell V}
    (hf : ∀ cell, (f cell).told = cell.told) {operation : Edit}
    (h : e.edit operation = e.modifyCell id f) :
    (e.apply (.edit operation)).graph = e.graph ∧
      (e.apply (.edit operation)).executing = e.executing ∧
      ∀ c, (e.apply (.edit operation)).told c = e.told c := by
  have hstep : e.step (.edit operation) = e.modifyCell id f := h
  obtain ⟨-, hfault⟩ | ⟨cell, hcell, hnext⟩ := e.modifyCell_cases id f
  · rw [apply_of_error (hstep.trans hfault)]
    exact ⟨rfl, rfl, fun _ => rfl⟩
  · rw [apply_of_ok (hstep.trans hnext)]
    exact ⟨rfl, rfl, told_insert hcell (hf cell)⟩

theorem links_apply_modifyCell {e : Engine V} {id : CellId} {f : Cell V → Cell V} {operation : Edit}
    (h : e.edit operation = e.modifyCell id f) : (e.apply (.edit operation)).links = e.links := by
  have hstep : e.step (.edit operation) = e.modifyCell id f := h
  obtain ⟨-, hfault⟩ | ⟨cell, -, hnext⟩ := e.modifyCell_cases id f
  · rw [apply_of_error (hstep.trans hfault)]
  · rw [apply_of_ok (hstep.trans hnext)]

/-- A silent edit leaves the graph and the slot as they are, and what the cells are told. -/
theorem apply_of_silent {operation : Edit} (h : operation.Silent) (e : Engine V) :
    (e.apply (.edit operation)).graph = e.graph ∧
      (e.apply (.edit operation)).executing = e.executing ∧
      ∀ c, (e.apply (.edit operation)).told c = e.told c := by
  cases operation with
  | update | clear | restore => exact h.elim
  | invalidate id =>
    have hf : ∀ cell : Cell V, cell.markStale.told = cell.told := fun _ => rfl
    exact apply_modifyCell hf rfl
  | setRunning id =>
    have hf : ∀ cell : Cell V, cell.markRunning.told = cell.told := fun _ => rfl
    exact apply_modifyCell hf rfl
  | markDescendantsStale id => exact ⟨rfl, rfl, e.told_markDescendantsStale id⟩
  | resetDidRun => exact ⟨rfl, rfl, e.told_resetDidRun⟩
  | overrideFlags | dropDeleted | addLink | addLinks | removeLinks => exact ⟨rfl, rfl, fun _ => rfl⟩

/-- A silent edit makes no cell fresh. -/
theorem wasFresh_of_silent {operation : Edit} (h : operation.Silent) (e : Engine V) (c : CellId) :
    WasFresh e (e.apply (.edit operation)) c := by
  cases operation with
  | update | clear | restore => exact h.elim
  | invalidate id =>
    obtain hinvalid | ⟨cell, -, hinvalid⟩ := e.apply_invalidate_cases id
    all_goals rw [hinvalid]
    · exact wasFresh_of_cells rfl c
    · exact e.wasFresh_insert_markStale id cell c
  | setRunning id =>
    have hstep : e.step (.edit (.setRunning id)) = e.modifyCell id Cell.markRunning := rfl
    obtain ⟨-, hfault⟩ | ⟨cell, hcell, hnext⟩ := e.modifyCell_cases id Cell.markRunning
    · rw [apply_of_error (hstep.trans hfault)]
      exact wasFresh_of_cells rfl c
    · rw [apply_of_ok (hstep.trans hnext)]
      exact wasFresh_insert_markRunning hcell c
  | markDescendantsStale id => exact e.wasFresh_markDescendantsStale id c
  | resetDidRun => exact e.wasFresh_resetDidRun c
  | overrideFlags | dropDeleted | addLink | addLinks | removeLinks => exact wasFresh_of_cells rfl c

/-- **What an edit can come to**: a batch is applied, the notebook is cleared or restored, or the
graph, the slot and what the cells are told stay as they are. -/
theorem apply_edit_cases (e : Engine V) (operation : Edit) :
    (∃ batch, e.apply (.edit operation) = e.update batch) ∨ e.apply (.edit operation) = e.clear ∨
      (∃ document, e.apply (.edit operation) = e.restore document) ∨
      (e.apply (.edit operation)).graph = e.graph ∧
        (e.apply (.edit operation)).executing = e.executing ∧
        ∀ c, (e.apply (.edit operation)).told c = e.told c := by
  cases operation with
  | update batch => exact .inl ⟨batch, rfl⟩
  | clear => exact .inr (.inl rfl)
  | restore document => exact .inr (.inr (.inl ⟨document, rfl⟩))
  | _ => exact .inr (.inr (.inr (apply_of_silent (by trivial) e)))

/-! ## 2. Restoring -/

theorem cellOrNew_clear (e : Engine V) (c : CellId) : e.clear.cellOrNew c = Cell.new := by
  have hnone : e.clear.cells[c]? = none := ExtTreeMap.getElem?_empty
  rw [cellOrNew, hnone, Option.getD_none]

end Engine

namespace Cell

theorem revise_new (r : Revision) : (new : Cell V).revise r =
    { code := r.code
      persistentCode := r.persistentCode
      executedCode := r.executedCode
      inputs := r.inputs
      outputTags := r.outputTags
      name := r.name
      autoUpdate := r.autoUpdate
      forceCached := r.forceCached } := by
  cases hcode : r.persistentCode with
  | none =>
    have hsame : (new : Cell V).changedBy r = false := by rw [changedBy, hcode]; rfl
    rw [revise, hsame]
    rfl
  | some code =>
    have hchanged : (new : Cell V).changedBy r = true := by rw [changedBy, hcode]; rfl
    rw [revise, hchanged, ← hcode]
    rfl

theorem markStale_revise_new (r : Revision) :
    ((new : Cell V).revise r).markStale = new.revise r := by
  rw [revise_new]
  rfl

/-- The snapshot of a cell says what the cell was told, and more. -/
theorem toRevision_snapshot (c : Cell V) (cell : CellId) :
    (c.snapshot cell).toRevision =
      { c.told with executedCode := c.executedCode, outputTags := c.outputTags } := by
  have hinputs : (c.inputs.map fun _ tags => tags.toList).map
      (fun _ tags => ExtTreeSet.ofList tags) = c.inputs := by
    rw [ExtTreeMap.map_map]
    apply ExtTreeMap.ext_getElem?
    intro k
    rw [ExtTreeMap.getElem?_map]
    have hsame : (fun tags : ExtTreeSet Tag => (ExtTreeSet.ofList tags.toList : ExtTreeSet Tag)) =
        id :=
      funext setOfList_toList
    rw [hsame, Option.map_id]
    rfl
  rw [Snapshot.toRevision, snapshot, hinputs, setOfList_toList, told]

/-- **A cell that is told what a snapshot shows** has that snapshot. -/
theorem snapshot_revise_toRevision {W : Type} (c : Cell V) (cell : CellId) :
    ((new : Cell W).revise (c.snapshot cell).toRevision).snapshot cell = c.snapshot cell := by
  rw [revise_new, toRevision_snapshot]
  rfl

end Cell

namespace Engine

/-- **A restored cell** is a new one that is told what its snapshot shows. -/
theorem getElem?_restore (e : Engine V) (d : Document) (c : CellId) :
    (e.restore d).cells[c]? = (d.cells[c]?).map fun s => Cell.new.revise s.toRevision := by
  show (e.clear.update (Batch.ofSnapshots d.cells)).cells[c]? = _
  rw [getElem?_update, Batch.ofSnapshots, ExtTreeMap.getElem?_map, Option.map_map, cellOrNew_clear]
  congr 1
  funext s
  simp only [Function.comp_apply, Cell.markStale_revise_new, ite_self]

/-- So it is stale and stores nothing. -/
theorem stale_restore {e : Engine V} {d : Document} {c : CellId} {cell : Cell V}
    (h : (e.restore d).cells[c]? = some cell) : cell.stale = true ∧ cell.output = none := by
  rw [getElem?_restore] at h
  obtain ⟨s, -, rfl⟩ := Option.map_eq_some_iff.1 h
  rw [Cell.revise_new]
  exact ⟨rfl, rfl⟩

theorem contains_restore (e : Engine V) (d : Document) (c : CellId) :
    (e.restore d).contains c = d.cells.contains c := by
  rw [contains, ExtTreeMap.contains_eq_isSome_getElem?, getElem?_restore, Option.isSome_map,
    ExtTreeMap.contains_eq_isSome_getElem?]

/-- **A restored edge** is declared by a snapshot or was saved, and its cells are there. -/
theorem mem_graph_restore {e : Engine V} {d : Document} {p c : CellId} :
    (p, c) ∈ (e.restore d).graph ↔ d.cells.contains p = true ∧ d.cells.contains c = true ∧
      ((∃ s, d.cells[c]? = some s ∧ s.inputs.contains p = true) ∨ (p, c) ∈ d.edges) := by
  have hcontains : ∀ id, (e.clear.update (Batch.ofSnapshots d.cells)).contains id =
      d.cells.contains id := fun id =>
    (contains_update e.clear _ id).trans ExtTreeMap.contains_map
  -- The batch is applied to an empty graph, so it leaves the declared edges and no others.
  have hnone : (p, c) ∉ (e.clear : Engine V).graph := Graph.not_mem_empty (p, c)
  have hdeclared : (p, c) ∈ (e.clear.update (Batch.ofSnapshots d.cells)).graph ↔
      (∃ s, d.cells[c]? = some s ∧ s.inputs.contains p = true) ∧ d.cells.contains p = true := by
    rw [mem_graph_update, or_iff_left fun h => hnone h.1, Batch.ofSnapshots,
      ExtTreeMap.contains_map, ExtTreeMap.getElem?_map]
    constructor
    · rintro ⟨r, hr, hinput, hp⟩
      obtain ⟨s, hs, rfl⟩ := Option.map_eq_some_iff.1 hr
      rw [Snapshot.toRevision, ExtTreeMap.contains_map] at hinput
      exact ⟨⟨s, hs, hinput⟩, hp⟩
    · rintro ⟨⟨s, hs, hinput⟩, hp⟩
      refine ⟨s.toRevision, by rw [hs, Option.map_some], ?_, hp⟩
      rwa [Snapshot.toRevision, ExtTreeMap.contains_map]
  show (p, c) ∈ Graph.addEdges _ _ ↔ _
  rw [Graph.mem_addEdges, List.mem_filter, hdeclared, Bool.and_eq_true, hcontains, hcontains]
  constructor
  · rintro (⟨hsaved, hp, hc⟩ | ⟨⟨s, hs, hinput⟩, hp⟩)
    · exact ⟨hp, hc, .inr hsaved⟩
    · refine ⟨hp, ?_, .inl ⟨s, hs, hinput⟩⟩
      rw [ExtTreeMap.contains_eq_isSome_getElem?, hs]
      rfl
  · rintro ⟨hp, hc, hdeclares | hsaved⟩
    · exact .inr ⟨hdeclares, hp⟩
    · exact .inl ⟨hsaved, hp, hc⟩

theorem links_restore (e : Engine V) (d : Document) : (e.restore d).links = ∅ := by
  have hremove : ∀ (e : Engine V) id, e.links = ∅ → e.links.removeLinks id = ∅ := fun e id h => by
    rw [h, Links.removeLinks_empty]
  have hdisconnect : ∀ (e : Engine V) id, e.links = ∅ → (e.disconnect id).links = ∅ := hremove
  have htold : (e.clear.update (Batch.ofSnapshots d.cells)).links = ∅ :=
    update_keeps (fun e => e.links = ∅) hremove hdisconnect (fun _ _ _ h => h) rfl _
  exact htold

theorem flags_restore (e : Engine V) (d : Document) : (e.restore d).flags = e.flags :=
  e.clear.flags_update _

end Engine

end Notebook
