import Notebook.Engine.Step
import Notebook.Proofs.Graph.Walk

/-!
# What a step does to the cells

A cell carries two kinds of data. Some of it is *told*: its code, its references, its name, its
policies. Only a batch changes what a cell is told. The rest is the business of runs: the stored
output, staleness and the marks of a run.

Here each step that belongs to a run is described by what it does to the cell filed under an
identity. None of them changes what a cell is told, and none adds or removes a cell.
-/

set_option autoImplicit false

namespace Notebook

open Std

variable {V : Type}

/-! ## 1. What is told -/

/-- What a cell is told, which no run changes. -/
def Cell.told (c : Cell V) : Revision where
  code := c.code
  persistentCode := c.persistentCode
  inputs := c.inputs
  name := c.name
  autoUpdate := c.autoUpdate
  forceCached := c.forceCached

namespace Cell

theorem inputs_eq_of_told {c d : Cell V} (h : c.told = d.told) : c.inputs = d.inputs :=
  congrArg Revision.inputs h

theorem persistentCode_eq_of_told {c d : Cell V} (h : c.told = d.told) :
    c.persistentCode = d.persistentCode :=
  congrArg Revision.persistentCode h

theorem forceCached_eq_of_told {c d : Cell V} (h : c.told = d.told) :
    c.forceCached = d.forceCached :=
  congrArg Revision.forceCached h

theorem autoUpdate_eq_of_told {c d : Cell V} (h : c.told = d.told) : c.autoUpdate = d.autoUpdate :=
  congrArg Revision.autoUpdate h

theorem runnableCode_eq_of_told {c d : Cell V} (h : c.told = d.told) :
    c.runnableCode = d.runnableCode := by
  have hcode : c.code = d.code := congrArg Revision.code h
  rw [runnableCode, runnableCode, persistentCode_eq_of_told h, hcode]

/-- A cell that does not always answer its stored output is run as long as it is stale. -/
theorem usesCache_eq_not_stale {c : Cell V} (h : c.forceCached = false) :
    c.usesCache = !c.stale := by
  rw [usesCache, h, Bool.false_or]

end Cell

namespace Engine

/-- What the cell is told, if it is in the table. -/
def told (e : Engine V) (id : CellId) : Option Revision :=
  (e.cells[id]?).map Cell.told

theorem contains_eq_isSome_told (e : Engine V) (id : CellId) :
    e.contains id = (e.told id).isSome := by
  rw [contains, ExtTreeMap.contains_eq_isSome_getElem?, told, Option.isSome_map]

theorem contains_of_told {e e' : Engine V} {id : CellId} (h : e'.told id = e.told id) :
    e'.contains id = e.contains id := by
  rw [contains_eq_isSome_told, contains_eq_isSome_told, h]

theorem told_eq_some_of_cell {e : Engine V} {id : CellId} {cell : Cell V}
    (h : e.cells[id]? = some cell) : e.told id = some cell.told := by
  rw [told, h, Option.map_some]

theorem contains_of_cell {e : Engine V} {id : CellId} {cell : Cell V}
    (h : e.cells[id]? = some cell) : e.contains id = true := by
  rw [contains_eq_isSome_told, told_eq_some_of_cell h]
  rfl

theorem exists_cell_of_contains {e : Engine V} {id : CellId} (h : e.contains id = true) :
    ∃ cell, e.cells[id]? = some cell := by
  rw [contains, ExtTreeMap.contains_eq_isSome_getElem?] at h
  exact Option.isSome_iff_exists.1 h

/-- The cell of an engine, seen from one in which it was told the same. -/
theorem exists_cell_of_told {e e' : Engine V} {id : CellId} (h : e'.told id = e.told id)
    {cell : Cell V} (hcell : e.cells[id]? = some cell) :
    ∃ cell', e'.cells[id]? = some cell' ∧ cell'.told = cell.told := by
  rw [told_eq_some_of_cell hcell] at h
  exact Option.map_eq_some_iff.1 h

/-! ## 2. One step of a run -/

/-- The edge of a read. -/
def connect (e : Engine V) (parent child : CellId) : Engine V :=
  { e with graph := (e.graph.addEdge parent child).2 }

theorem apply_of_ok {e next : Engine V} {s : Step V} (h : e.step s = .ok next) :
    e.apply s = next := by
  rw [apply, h]

theorem apply_of_error {e : Engine V} {s : Step V} {fault : Fault} (h : e.step s = .error fault) :
    e.apply s = e := by
  rw [apply, h]

theorem apply_connect (e : Engine V) (parent child : CellId) :
    e.apply (.connect parent child) = e.connect parent child := rfl

theorem mem_graph_connect {e : Engine V} {parent child p c : CellId} :
    (p, c) ∈ (e.connect parent child).graph ↔ (p = parent ∧ c = child) ∨ (p, c) ∈ e.graph :=
  Graph.mem_addEdge

/-- Recording an edge that is there already changes nothing. -/
theorem connect_eq_self {e : Engine V} {parent child : CellId} (h : (parent, child) ∈ e.graph) :
    e.connect parent child = e := by
  have hgraph : (e.graph.addEdge parent child).2 = e.graph := by
    apply Graph.ext
    intro p c
    rw [Graph.mem_addEdge]
    constructor
    · rintro (⟨rfl, rfl⟩ | h')
      · exact h
      · exact h'
    · exact .inr
  rw [connect, hgraph]

theorem getElem?_beginRun (e : Engine V) (id c : CellId) :
    (e.beginRun id).cells[c]? =
      if c = id then (e.cells[c]?).map (fun cell => cell.markRunning.recordExecutedCode)
        else e.cells[c]? := by
  rw [beginRun, ExtTreeMap.getElem?_modify]
  by_cases h : id = c
  · subst h
    simp
  · simp [h, Ne.symm h]

theorem getElem?_markDescendantsStale (e : Engine V) (id c : CellId) :
    (e.markDescendantsStale id).cells[c]? =
      (e.cells[c]?).map fun cell => if c ∈ e.graph.descendants id then cell.markStale
        else cell := by
  rw [markDescendantsStale, ExtTreeMap.getElem?_map]

theorem getElem?_resetDidRun (e : Engine V) (c : CellId) :
    e.resetDidRun.cells[c]? = (e.cells[c]?).map Cell.resetDidRun := by
  rw [resetDidRun, ExtTreeMap.getElem?_map]

/-- Only a cell in the table can be changed. -/
theorem modifyCell_cases (e : Engine V) (id : CellId) (f : Cell V → Cell V) :
    (e.cells[id]? = none ∧ e.modifyCell id f = .error (.unknownCell id)) ∨
      ∃ cell, e.cells[id]? = some cell ∧
        e.modifyCell id f = .ok { e with cells := e.cells.insert id (f cell) } := by
  rw [modifyCell]
  cases e.cells[id]? with
  | none => exact .inl ⟨rfl, rfl⟩
  | some cell => exact .inr ⟨cell, rfl, rfl⟩

theorem invalidate_cases (e : Engine V) (id : CellId) :
    (e.cells[id]? = none ∧ e.invalidate id = .error (.unknownCell id)) ∨
      ∃ cell, e.cells[id]? = some cell ∧
        e.invalidate id = .ok { e with cells := e.cells.insert id cell.markStale } :=
  e.modifyCell_cases id Cell.markStale

/-- A cell that is not in the table cannot be made stale. -/
theorem apply_invalidate_cases (e : Engine V) (id : CellId) :
    e.apply (.edit (.invalidate id)) = e ∨
      ∃ cell, e.cells[id]? = some cell ∧
        e.apply (.edit (.invalidate id)) =
          { e with cells := e.cells.insert id cell.markStale } := by
  obtain ⟨-, hinvalid⟩ | ⟨cell, hcell, hinvalid⟩ := e.invalidate_cases id
  · exact .inl (apply_of_error hinvalid)
  · exact .inr ⟨cell, hcell, apply_of_ok hinvalid⟩

theorem getElem?_insert_cell (e : Engine V) (id c : CellId) (cell : Cell V) :
    (e.cells.insert id cell)[c]? = if c = id then some cell else e.cells[c]? := by
  rw [ExtTreeMap.getElem?_insert]
  by_cases h : id = c
  · simp [h]
  · simp [h, Ne.symm h]

/-- A publication stores the output of the cell, and what the cell feeds becomes stale. -/
theorem getElem?_publish (e : Engine V) (id c : CellId) (cell : Cell V) (output : Output V) :
    (e.publish id cell output).cells[c]? =
      (if c = id then some (cell.publish output) else e.cells[c]?).map fun d =>
        if c ∈ e.graph.descendants id then d.markStale else d := by
  rw [publish, getElem?_markDescendantsStale, getElem?_insert_cell]

/-- Whoever owns the slot and is in the table may publish for itself. -/
theorem write_eq_ok {e : Engine V} {id : CellId} {cell : Cell V} (hslot : e.executing = some id)
    (hcell : e.cells[id]? = some cell) (output : Output V) :
    e.write ⟨id⟩ id output = .ok (e.publish id cell output) := by
  rw [write, if_pos ⟨rfl, hslot⟩, hcell]

theorem apply_write_eq_publish {e : Engine V} {id : CellId} {cell : Cell V}
    (hslot : e.executing = some id) (hcell : e.cells[id]? = some cell) (output : Output V) :
    e.apply (.write ⟨id⟩ id output) = e.publish id cell output :=
  apply_of_ok (write_eq_ok hslot hcell output)

/-- What is taken is published. -/
theorem eq_publish_of_write {e next : Engine V} {context : Context} {id : CellId}
    {output : Output V} (h : e.write context id output = .ok next) :
    ∃ cell, e.cells[id]? = some cell ∧ next = e.publish id cell output := by
  rw [write] at h
  split at h
  · split at h
    · cases h
    · rename_i cell hcell
      cases h
      exact ⟨cell, hcell, rfl⟩
  · cases h

/-- An offered output is published or nothing happens. -/
theorem apply_write_cases (e : Engine V) (context : Context) (id : CellId) (output : Output V) :
    e.apply (.write context id output) = e ∨
      ∃ cell, e.cells[id]? = some cell ∧ e.executing = some id ∧ id = context.cell ∧
        e.apply (.write context id output) = e.publish id cell output := by
  have hstep : e.step (.write context id output) = e.write context id output := rfl
  by_cases h : id = context.cell ∧ e.executing = some id
  · cases hcell : e.cells[id]? with
    | none => exact .inl (apply_of_error (by rw [hstep, write, if_pos h, hcell]))
    | some cell =>
      exact .inr ⟨cell, rfl, h.2, h.1, apply_of_ok (by rw [hstep, write, if_pos h, hcell])⟩
  · exact .inl (apply_of_error (by rw [hstep, write, if_neg h]))

theorem graph_apply_write (e : Engine V) (context : Context) (id : CellId) (output : Output V) :
    (e.apply (.write context id output)).graph = e.graph := by
  obtain h | ⟨cell, -, -, -, h⟩ := e.apply_write_cases context id output
  all_goals rw [h]
  rfl

theorem getElem?_failRun (e : Engine V) (id c : CellId) :
    (e.failRun id).cells[c]? = if c = id then (e.cells[c]?).map Cell.fail else e.cells[c]? := by
  rw [failRun]
  cases hcell : e.cells[id]? with
  | none =>
    by_cases h : c = id
    · subst h
      simp [hcell]
    · simp [h]
  | some cell =>
    show (e.cells.insert id cell.fail)[c]? = _
    rw [getElem?_insert_cell]
    by_cases h : c = id
    · subst h
      simp [hcell]
    · simp [h]

/-- The edges that a failure takes away lead out of the cell that failed, to cells that do not
declare it. -/
theorem mem_graph_failRun {e : Engine V} {id p c : CellId} :
    (p, c) ∈ (e.failRun id).graph ↔ (p, c) ∈ e.graph ∧
      ¬ (p = id ∧ e.contains id = true ∧
        ∀ cell, e.cells[c]? = some cell → cell.declares id = false) := by
  rw [failRun]
  cases hcell : e.cells[id]? with
  | none =>
    have hnot : e.contains id = false := by
      rw [contains_eq_isSome_told, told, hcell]
      rfl
    simp [hnot]
  | some cell =>
    have hin : e.contains id = true := by
      rw [contains_eq_isSome_told, told, hcell]
      rfl
    show (p, c) ∈ e.graph.removeEdges
      (discoveredEdges { e with cells := e.cells.insert id cell.fail } id) ↔ _
    have hfail : cell.fail.declares = cell.declares := rfl
    rw [Graph.mem_removeEdges]
    refine and_congr_right fun hedge => not_congr ?_
    simp only [discoveredEdges, List.mem_map, List.mem_filter, ExtTreeSet.mem_toList, Prod.mk.injEq,
      getElem?_insert_cell]
    constructor
    · rintro ⟨x, ⟨-, hx⟩, rfl, rfl⟩
      refine ⟨rfl, hin, fun d hd => ?_⟩
      by_cases hxid : x = id
      · subst hxid
        rw [hcell] at hd
        cases hd
        simpa [hfail] using hx
      · simpa [hxid, hd] using hx
    · rintro ⟨rfl, -, hdeclares⟩
      refine ⟨c, ⟨hedge, ?_⟩, rfl, rfl⟩
      by_cases hcp : c = p
      · subst hcp
        simpa [hfail] using hdeclares cell hcell
      · cases hc : e.cells[c]? with
        | none => simp [hcp]
        | some d => simpa [hcp] using hdeclares d hc

/-! ## 3. What a run leaves alone -/

/-- Told the same about the same cells, and the slot, the flags and the queue of deletions are the
same. -/
structure Frame (e e' : Engine V) : Prop where
  told : ∀ id, e'.told id = e.told id
  executing : e'.executing = e.executing
  flags : e'.flags = e.flags
  deleted : e'.deleted = e.deleted

namespace Frame

theorem refl (e : Engine V) : Frame e e := ⟨fun _ => rfl, rfl, rfl, rfl⟩

theorem trans {e₁ e₂ e₃ : Engine V} (h : Frame e₁ e₂) (h' : Frame e₂ e₃) : Frame e₁ e₃ where
  told id := (h'.told id).trans (h.told id)
  executing := h'.executing.trans h.executing
  flags := h'.flags.trans h.flags
  deleted := h'.deleted.trans h.deleted

theorem contains {e e' : Engine V} (h : Frame e e') (id : CellId) :
    e'.contains id = e.contains id :=
  contains_of_told (h.told id)

theorem connect (e : Engine V) (parent child : CellId) : Frame e (e.connect parent child) :=
  ⟨fun _ => rfl, rfl, rfl, rfl⟩

end Frame

theorem told_beginRun (e : Engine V) (id c : CellId) : (e.beginRun id).told c = e.told c := by
  rw [told, told, getElem?_beginRun]
  split
  · rw [Option.map_map]
    rfl
  · rfl

theorem told_publish {e : Engine V} {id : CellId} {cell : Cell V} (hcell : e.cells[id]? = some cell)
    (output : Output V) (c : CellId) : (e.publish id cell output).told c = e.told c := by
  rw [told, told, getElem?_publish, Option.map_map]
  have htold : (Cell.told ∘ fun d : Cell V => if c ∈
      e.graph.descendants id then d.markStale else d) = Cell.told := by
    funext d
    simp only [Function.comp_apply]
    split <;> rfl
  rw [htold]
  split
  · rename_i h
    subst h
    rw [hcell]
    rfl
  · rfl

theorem told_apply_write (e : Engine V) (context : Context) (id : CellId) (output : Output V)
    (c : CellId) : (e.apply (.write context id output)).told c = e.told c := by
  obtain h | ⟨cell, hcell, -, -, h⟩ := e.apply_write_cases context id output
  all_goals rw [h]
  exact told_publish hcell output c

theorem told_failRun (e : Engine V) (id c : CellId) : (e.failRun id).told c = e.told c := by
  rw [told, told, getElem?_failRun]
  split
  · rw [Option.map_map]
    rfl
  · rfl

theorem told_markDescendantsStale (e : Engine V) (id c : CellId) :
    (e.markDescendantsStale id).told c = e.told c := by
  rw [told, told, getElem?_markDescendantsStale, Option.map_map]
  congr 1
  funext d
  simp only [Function.comp_apply]
  split <;> rfl

theorem told_resetDidRun (e : Engine V) (c : CellId) : e.resetDidRun.told c = e.told c := by
  rw [told, told, getElem?_resetDidRun, Option.map_map]
  rfl

/-- A cell that is told the same takes the place of another. -/
theorem told_insert {e : Engine V} {id : CellId} {cell cell' : Cell V}
    (hcell : e.cells[id]? = some cell) (h : cell'.told = cell.told) (c : CellId) :
    ({ e with cells := e.cells.insert id cell' } : Engine V).told c = e.told c := by
  rw [told, told, getElem?_insert_cell]
  split
  · rename_i hc
    subst hc
    rw [hcell, Option.map_some, Option.map_some, h]
  · rfl

theorem told_insert_markStale {e : Engine V} {id : CellId} {cell : Cell V}
    (hcell : e.cells[id]? = some cell) (c : CellId) :
    ({ e with cells := e.cells.insert id cell.markStale } : Engine V).told c = e.told c := by
  have hsame : cell.markStale.told = cell.told := rfl
  exact told_insert hcell hsame c

theorem contains_markDescendantsStale (e : Engine V) (id c : CellId) :
    (e.markDescendantsStale id).contains c = e.contains c :=
  contains_of_told (e.told_markDescendantsStale id c)

theorem contains_insert_markStale {e : Engine V} {id : CellId} {cell : Cell V}
    (hcell : e.cells[id]? = some cell) (c : CellId) :
    ({ e with cells := e.cells.insert id cell.markStale } : Engine V).contains c = e.contains c :=
  contains_of_told (told_insert_markStale hcell c)

@[simp] theorem executing_failRun (e : Engine V) (id : CellId) :
    (e.failRun id).executing = e.executing := by
  rw [failRun]
  split <;> rfl

@[simp] theorem flags_failRun (e : Engine V) (id : CellId) : (e.failRun id).flags = e.flags := by
  rw [failRun]
  split <;> rfl

@[simp] theorem links_failRun (e : Engine V) (id : CellId) : (e.failRun id).links = e.links := by
  rw [failRun]
  split <;> rfl

@[simp] theorem deleted_failRun (e : Engine V) (id : CellId) :
    (e.failRun id).deleted = e.deleted := by
  rw [failRun]
  split <;> rfl

/-! ## 4. What is not stale -/

/-- If the cell is not stale in the second engine, it was not in the first, and it stores the same
output. -/
def WasFresh (e e' : Engine V) (c : CellId) : Prop :=
  ∀ cell', e'.cells[c]? = some cell' → cell'.stale = false →
    ∃ cell, e.cells[c]? = some cell ∧ cell.stale = false ∧ cell.output = cell'.output

theorem wasFresh_of_cells {e e' : Engine V} (h : e'.cells = e.cells) (c : CellId) :
    WasFresh e e' c :=
  fun cell' hcell' hfresh => ⟨cell', h ▸ hcell', hfresh, rfl⟩

theorem wasFresh_markDescendantsStale (e : Engine V) (id c : CellId) :
    WasFresh e (e.markDescendantsStale id) c := by
  intro cell' hcell' hfresh
  rw [getElem?_markDescendantsStale] at hcell'
  obtain ⟨cell, hcell, rfl⟩ := Option.map_eq_some_iff.1 hcell'
  split at hfresh
  · exact absurd hfresh (by simp [Cell.markStale])
  · rename_i hnot
    exact ⟨cell, hcell, hfresh, by rw [if_neg hnot]⟩

theorem wasFresh_resetDidRun (e : Engine V) (c : CellId) : WasFresh e e.resetDidRun c := by
  intro cell' hcell' hfresh
  rw [getElem?_resetDidRun] at hcell'
  obtain ⟨cell, hcell, rfl⟩ := Option.map_eq_some_iff.1 hcell'
  exact ⟨cell, hcell, hfresh, rfl⟩

theorem wasFresh_insert_markStale (e : Engine V) (id : CellId) (cell : Cell V) (c : CellId) :
    WasFresh e { e with cells := e.cells.insert id cell.markStale } c := by
  intro cell' hcell' hfresh
  rw [getElem?_insert_cell] at hcell'
  split at hcell'
  · cases hcell'
    exact absurd hfresh (by simp [Cell.markStale])
  · exact ⟨cell', hcell', hfresh, rfl⟩

theorem wasFresh_insert_markRunning {e : Engine V} {id : CellId} {cell : Cell V}
    (hcell : e.cells[id]? = some cell) (c : CellId) :
    WasFresh e { e with cells := e.cells.insert id cell.markRunning } c := by
  intro cell' hcell' hfresh
  rw [getElem?_insert_cell] at hcell'
  split at hcell'
  · rename_i hc
    cases hcell'
    exact ⟨cell, hc ▸ hcell, hfresh, rfl⟩
  · exact ⟨cell', hcell', hfresh, rfl⟩

theorem wasFresh_beginRun (e : Engine V) (id c : CellId) : WasFresh e (e.beginRun id) c := by
  intro cell' hcell' hfresh
  rw [getElem?_beginRun] at hcell'
  split at hcell'
  · obtain ⟨cell, hcell, rfl⟩ := Option.map_eq_some_iff.1 hcell'
    exact ⟨cell, hcell, hfresh, rfl⟩
  · exact ⟨cell', hcell', hfresh, rfl⟩

/-- A publication makes no other cell fresh. -/
theorem wasFresh_publish (e : Engine V) {id c : CellId} (hc : c ≠ id) (cell : Cell V)
    (output : Output V) : WasFresh e (e.publish id cell output) c := by
  intro cell' hcell' hfresh
  rw [getElem?_publish, if_neg hc] at hcell'
  obtain ⟨d, hd, rfl⟩ := Option.map_eq_some_iff.1 hcell'
  split at hfresh
  · exact absurd hfresh (by simp [Cell.markStale])
  · rename_i hnot
    exact ⟨d, hd, hfresh, by rw [if_neg hnot]⟩

theorem wasFresh_apply_write (e : Engine V) {context : Context} {id c : CellId} (hc : c ≠ id)
    (output : Output V) : WasFresh e (e.apply (.write context id output)) c := by
  obtain h | ⟨cell, -, -, -, h⟩ := e.apply_write_cases context id output
  all_goals rw [h]
  · exact wasFresh_of_cells rfl c
  · exact e.wasFresh_publish hc cell output

/-- What a cell that is not stale stores after its own publication. -/
theorem output_of_publish {e : Engine V} {id : CellId} {cell cell' : Cell V} {output : Output V}
    (hcell' : (e.publish id cell output).cells[id]? = some cell') (hfresh : cell'.stale = false) :
    cell'.output = some output := by
  rw [getElem?_publish, if_pos rfl, Option.map_some, Option.some_inj] at hcell'
  subst hcell'
  split
  · rename_i h
    rw [if_pos h] at hfresh
    exact absurd hfresh (by simp [Cell.markStale])
  · rfl

theorem wasFresh_failRun (e : Engine V) (id c : CellId) : WasFresh e (e.failRun id) c := by
  intro cell' hcell' hfresh
  rw [getElem?_failRun] at hcell'
  split at hcell'
  · obtain ⟨cell, -, rfl⟩ := Option.map_eq_some_iff.1 hcell'
    exact absurd hfresh (by simp [Cell.fail])
  · exact ⟨cell', hcell', hfresh, rfl⟩

end Engine

end Notebook
