import Notebook.Proofs.Engine.Cells

/-!
# Marks on cells

A cell bears two marks that have nothing to do with what it stores: that a run of it is in
progress, and that it has run since the last request began. What a step does to either of them is
said here for any mark that staleness does not touch.
-/

set_option autoImplicit false

namespace Notebook.Engine

open Std

variable {V : Type}

/-- Is the cell in the table, and does it bear the mark? -/
def bears (e : Engine V) (mark : Cell V → Bool) (c : CellId) : Bool :=
  (e.cells[c]?).any mark

/-- No run is in progress. -/
def Idle (e : Engine V) : Prop :=
  ∀ c, e.bears Cell.running c = false

theorem Idle.of_running {e e' : Engine V} (h : e.Idle)
    (hrunning : ∀ c, e'.bears Cell.running c = true → e.bears Cell.running c = true) : e'.Idle := by
  intro c
  rw [← Bool.not_eq_true]
  intro hc
  have hbefore := hrunning c hc
  rw [h c] at hbefore
  exact Bool.noConfusion hbefore

variable {mark : Cell V → Bool} (hstale : ∀ cell : Cell V, mark cell.markStale = mark cell)

theorem bears_of_cell {e : Engine V} {c : CellId} {cell : Cell V}
    (hcell : e.cells[c]? = some cell) : e.bears mark c = mark cell := by
  rw [bears, hcell, Option.any_some]

theorem bears_beginRun (e : Engine V) (id c : CellId) : (e.beginRun id).bears mark c =
    if c = id then e.bears (fun cell => mark cell.markRunning.recordExecutedCode) c
      else e.bears mark c := by
  rw [bears, getElem?_beginRun]
  split
  · rw [Option.any_map]
    rfl
  · rfl

theorem bears_failRun (e : Engine V) (id c : CellId) : (e.failRun id).bears mark c =
    if c = id then e.bears (fun cell => mark cell.fail) c else e.bears mark c := by
  rw [bears, getElem?_failRun]
  split
  · rw [Option.any_map]
    rfl
  · rfl

theorem bears_resetDidRun (e : Engine V) (c : CellId) :
    e.resetDidRun.bears mark c = e.bears (fun cell => mark cell.resetDidRun) c := by
  rw [bears, getElem?_resetDidRun, Option.any_map]
  rfl

include hstale

theorem bears_markDescendantsStale (e : Engine V) (id c : CellId) :
    (e.markDescendantsStale id).bears mark c = e.bears mark c := by
  have hmark : (fun cell => mark (if c ∈ e.graph.descendants id then cell.markStale else cell)) =
      mark := by
    funext cell
    split
    · exact hstale cell
    · rfl
  rw [bears, getElem?_markDescendantsStale, Option.any_map, hmark, bears]

theorem bears_publish (e : Engine V) (id c : CellId) (cell : Cell V) (output : Output V) :
    (e.publish id cell output).bears mark c = if c = id then mark (cell.publish output)
      else e.bears mark c := by
  rw [publish, bears_markDescendantsStale hstale, bears, getElem?_insert_cell]
  split <;> rfl

theorem bears_insert_markStale {e : Engine V} {id : CellId} {cell : Cell V}
    (hcell : e.cells[id]? = some cell) (c : CellId) :
    ({ e with cells := e.cells.insert id cell.markStale } : Engine V).bears mark c =
    e.bears mark c := by
  rw [bears, getElem?_insert_cell]
  split
  · rename_i hc
    rw [Option.any_some, hstale, hc, bears_of_cell hcell]
  · rfl

end Notebook.Engine
