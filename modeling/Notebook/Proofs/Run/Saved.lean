import Notebook.Proofs.Engine.Edits
import Notebook.Proofs.Run.Declared
import Notebook.Proofs.Run.Nesting

/-!
# Saving and restoring a notebook

A saved notebook holds the snapshots of its cells and a list of edges. When it is restored, the
declared edges come back with the snapshots, and of the listed edges only those between existing
cells are taken. That this adds up to the graph that was saved is a matter of two invariants:

> **every edge joins two cells of the table, and every declared reference to an
> existing cell is an edge.**

Runs that only read keep both. A read records an edge from a cell that it has found to the cell
that is being run, and the edges that a failure takes away are not declared.
-/

set_option autoImplicit false

namespace Notebook

open Std

variable {V σ : Type}

/-! ## 1. Edges and declarations -/

namespace Engine

/-- Every declared reference to an existing cell is an edge. -/
def Covers (e : Engine V) : Prop :=
  ∀ p c, e.Declares p c → (p, c) ∈ e.graph

namespace Covers

variable {e e' : Engine V}

theorem of_told (h : e.Covers) (hgraph : ∀ p c, (p, c) ∈ e.graph → (p, c) ∈ e'.graph)
    (htold : ∀ c, e'.told c = e.told c) : e'.Covers := by
  intro p c hdeclares
  exact hgraph p c (h p c (hdeclares.of_told fun c => (htold c).symm))

theorem withFlags (flags : RunFlags) : (withFlags flags : Engine V).Covers := by
  intro p c hdeclares
  exact (exact_withFlags flags p c).2 hdeclares

/-- A batch records all that is declared, whatever was recorded before. -/
theorem update (e : Engine V) (batch : Batch) : (e.update batch).Covers := by
  intro p c hdeclares
  exact mem_graph_update.2 (.inl (declares_update.1 hdeclares))

theorem restore (e : Engine V) (d : Document) : (e.restore d).Covers := by
  intro p c hdeclares
  obtain ⟨hp, cell, hcell, hinput⟩ := hdeclares
  have hc := contains_of_cell hcell
  rw [contains_restore] at hp hc
  rw [getElem?_restore] at hcell
  obtain ⟨s, hs, rfl⟩ := Option.map_eq_some_iff.1 hcell
  rw [Cell.declares, inputs_revise, Snapshot.toRevision, ExtTreeMap.contains_map] at hinput
  exact mem_graph_restore.2 ⟨hp, hc, .inl ⟨s, hs, hinput⟩⟩

theorem edit (h : e.Covers) (operation : Edit) : (e.apply (.edit operation)).Covers := by
  obtain ⟨batch, hedit⟩ | hedit | ⟨document, hedit⟩ | ⟨hgraph, -, htold⟩ :=
    e.apply_edit_cases operation
  · rw [hedit]
    exact .update e batch
  · rw [hedit]
    exact .withFlags e.flags
  · rw [hedit]
    exact .restore e document
  · exact h.of_told (fun p c => hgraph ▸ id) htold

theorem connect (h : e.Covers) (parent child : CellId) : (e.connect parent child).Covers :=
  h.of_told (fun _ _ hedge => mem_graph_connect.2 (.inr hedge)) fun _ => rfl

/-- An edge that a failure takes away leads to a cell that does not declare the one that failed. -/
theorem failRun (h : e.Covers) (id : CellId) : (e.failRun id).Covers := by
  intro p c hdeclares
  have hbefore : e.Declares p c := hdeclares.of_told fun c => (e.told_failRun id c).symm
  refine mem_graph_failRun.2 ⟨h p c hbefore, ?_⟩
  rintro ⟨rfl, -, hundeclared⟩
  obtain ⟨-, cell, hcell, hinput⟩ := hbefore
  rw [hundeclared cell hcell] at hinput
  exact Bool.noConfusion hinput

/-- **Every step** keeps the graph at the declarations. -/
theorem apply (h : e.Covers) (s : Step V) : (e.apply s).Covers := by
  cases s with
  | edit operation => exact h.edit operation
  | beginRun id => exact h.of_told (fun _ _ hedge => hedge) (e.told_beginRun id)
  | connect parent child => exact h.connect parent child
  | write context id output =>
    exact h.of_told (fun _ _ hedge => by rwa [graph_apply_write])
      (e.told_apply_write context id output)
  | failRun id => exact h.failRun id
  | resume slot => exact h.of_told (fun _ _ hedge => hedge) fun _ => rfl

end Covers

/-- Every edge joins two cells of the table, and every declared reference to an
existing cell is an edge. -/
structure Wired (e : Engine V) : Prop where
  ends : ∀ p c, (p, c) ∈ e.graph → e.contains p = true ∧ e.contains c = true
  declared : ∀ p c, e.Declares p c → (p, c) ∈ e.graph

namespace Wired

variable {e e' : Engine V}

theorem covers (h : e.Wired) : e.Covers := h.declared

theorem of_told (h : e.Wired) (hgraph : e'.graph = e.graph) (htold : ∀ c, e'.told c = e.told c) :
    e'.Wired where
  ends p c hedge := by
    rw [contains_of_told (htold p), contains_of_told (htold c)]
    exact h.ends p c (hgraph ▸ hedge)
  declared := h.covers.of_told (fun p c => hgraph ▸ id) htold

theorem withFlags (flags : RunFlags) : (withFlags flags : Engine V).Wired where
  ends p c hedge := absurd hedge (Graph.not_mem_empty (p, c))
  declared := Covers.withFlags flags

/-- A batch keeps the edges between cells that stay, and records all that is declared. -/
theorem update (h : e.Wired) (batch : Batch) : (e.update batch).Wired where
  ends p c hedge := by
    rw [contains_update, contains_update]
    obtain ⟨r, hr, -, hp⟩ | ⟨hedge, hp, hc, -, -⟩ := mem_graph_update.1 hedge
    · refine ⟨hp, ?_⟩
      rw [ExtTreeMap.contains_eq_isSome_getElem?, hr]
      rfl
    · obtain ⟨hpin, hcin⟩ := h.ends p c hedge
      exact ⟨contains_of_not_mem_leftOut hpin hp, contains_of_not_mem_leftOut hcin hc⟩
  declared := Covers.update e batch

/-- A restored notebook is wired, whatever was saved. -/
theorem restore (e : Engine V) (d : Document) : (e.restore d).Wired where
  ends p c hedge := by
    obtain ⟨hp, hc, -⟩ := mem_graph_restore.1 hedge
    rw [contains_restore, contains_restore]
    exact ⟨hp, hc⟩
  declared := Covers.restore e d

theorem edit (h : e.Wired) (operation : Edit) : (e.apply (.edit operation)).Wired := by
  obtain ⟨batch, hedit⟩ | hedit | ⟨document, hedit⟩ | ⟨hgraph, -, htold⟩ :=
    e.apply_edit_cases operation
  · rw [hedit]
    exact h.update batch
  · rw [hedit]
    exact .withFlags e.flags
  · rw [hedit]
    exact .restore e document
  · exact h.of_told hgraph htold

theorem connect (h : e.Wired) {parent child : CellId} (hparent : e.contains parent = true)
    (hchild : e.contains child = true) : (e.connect parent child).Wired where
  ends p c hedge := by
    obtain ⟨rfl, rfl⟩ | hedge := mem_graph_connect.1 hedge
    · exact ⟨hparent, hchild⟩
    · exact h.ends p c hedge
  declared := h.covers.connect parent child

theorem resume (h : e.Wired) (slot : Option CellId) : (e.resume slot).Wired :=
  h.of_told rfl fun _ => rfl

theorem failRun (h : e.Wired) (id : CellId) : (e.failRun id).Wired where
  ends p c hedge := by
    rw [contains_of_told (e.told_failRun id p), contains_of_told (e.told_failRun id c)]
    exact h.ends p c (mem_graph_failRun.1 hedge).1
  declared := h.covers.failRun id

end Wired

end Engine

/-! ## 2. Runs that only read -/

/-- **Runs that only read** keep the engine wired, whether they succeed or not. -/
theorem threaded_wired : Threaded (V := V) fun e _ e' => e.Wired → e'.Wired where
  nothing _ h := h
  append h h' he := h' (h he)
  unknown _ h := h
  itself _ h := h
  read _ hin hcontext hinside he := hinside (he.connect hin hcontext)
  publish {e e' id cell events} output hcell hinside he := by
    have hpublished : (e'.publish id cell output).Wired :=
      (hinside (he.of_told rfl (e.told_beginRun id))).of_told rfl (Engine.told_publish hcell output)
    exact hpublished.resume e.executing
  fail {e e' id cell events} _ hinside he :=
    ((hinside (he.of_told rfl (e.told_beginRun id))).failRun id).resume e.executing

theorem sequential_wired : Act.Sequential (V := V) (σ := σ) fun act =>
    ∀ e s t, e.Wired → act e s = some t → t.engine.Wired :=
  Act.sequential_keeps fun operation _ h => h.edit operation

theorem Runner.OnlyReads.wired {runner : Runner V σ} (hr : runner.OnlyReads) {flags : RunFlags}
    {events : List (Event V)} {e : Engine V}
    (h : runner.History (fun _ command => command.FromOutside) (.withFlags flags) events e) :
    e.Wired :=
  h.induct (.withFlags flags) fun e _ limit s t he houtside ht =>
    sequential_wired.carryOut
      (fun _ _ _ _ _ he hrun => threaded_wired.runFresh hr limit _ _ _ _ _ hrun he) houtside
      e s t he ht

/-! ## 3. Restoring what was saved -/

namespace Engine

variable {W : Type}

theorem getElem?_document (e : Engine V) (c : CellId) :
    e.document.cells[c]? = (e.cells[c]?).map fun cell => cell.snapshot c := by
  rw [document, snapshots, ExtTreeMap.getElem?_map]

theorem contains_document (e : Engine V) (c : CellId) :
    e.document.cells.contains c = e.contains c := by
  rw [document, snapshots, ExtTreeMap.contains_map, contains]

theorem snapshots_restore (k : Engine W) (e : Engine V) :
    (k.restore e.document).snapshots = e.snapshots := by
  apply ExtTreeMap.ext_getElem?
  intro c
  rw [snapshots, snapshots, ExtTreeMap.getElem?_map, ExtTreeMap.getElem?_map, getElem?_restore,
    getElem?_document, Option.map_map, Option.map_map]
  congr 1
  funext cell
  exact cell.snapshot_revise_toRevision c

theorem Wired.graph_restore {e : Engine V} (h : e.Wired) (k : Engine W) :
    (k.restore e.document).graph = e.graph := by
  apply Graph.ext
  intro p c
  have hedges : (p, c) ∈ e.document.edges ↔ (p, c) ∈ e.graph := Graph.mem_edges
  rw [mem_graph_restore, contains_document, contains_document, hedges]
  constructor
  · rintro ⟨hp, -, ⟨s, hs, hinput⟩ | hedge⟩
    · rw [getElem?_document] at hs
      obtain ⟨cell, hcell, rfl⟩ := Option.map_eq_some_iff.1 hs
      rw [Cell.snapshot, ExtTreeMap.contains_map] at hinput
      exact h.declared p c ⟨hp, cell, hcell, hinput⟩
    · exact hedge
  · intro hedge
    obtain ⟨hp, hc⟩ := h.ends p c hedge
    exact ⟨hp, hc, .inr hedge⟩

end Engine

/-- **A notebook that is restored is the one that was saved**, with nothing computed. -/
theorem Runner.OnlyReads.restores {runner : Runner V σ} (hr : runner.OnlyReads) {flags : RunFlags}
    {events : List (Event V)} {k : Engine V}
    (h : runner.History (fun _ command => command.FromOutside) (.withFlags flags) events k)
    {W : Type} (k₂ : Engine W) :
    (k₂.restore k.document).document = k.document ∧
    (∀ id, (k₂.restore k.document).contains id = k.contains id) ∧
    (∀ (id : CellId) (cell : Cell W), (k₂.restore k.document).cells[id]? = some cell →
      cell.stale = true ∧ cell.output = none) ∧
    (k₂.restore k.document).links = ∅ ∧
    (k₂.restore k.document).deleted = [] ∧
    (k₂.restore k.document).flags = k₂.flags := by
  have hdocument : (k₂.restore k.document).document = k.document := by
    rw [Engine.document, (hr.wired h).graph_restore k₂, k₂.snapshots_restore k]
    rfl
  refine ⟨hdocument, fun id => ?_, fun id cell hcell => ?_, k₂.links_restore _, rfl,
    k₂.flags_restore _⟩
  · rw [Engine.contains_restore, Engine.contains_document]
  · rw [Engine.getElem?_restore] at hcell
    obtain ⟨s, -, rfl⟩ := Option.map_eq_some_iff.1 hcell
    rw [Cell.revise_new]
    exact ⟨rfl, rfl⟩

/-- Cell 1 declares that it reads cell 0, which reads cell 1 without declaring it. -/
def readInCircle : List (Command Unit) :=
  [.edit (.update ((∅ : Batch).insert ⟨0⟩ (.ofCode "read 1")
    |>.insert ⟨1⟩ ((Revision.ofCode "read 0").withInput ⟨0⟩ []))), .execute ⟨0⟩ {}]

theorem readInCircle_fromOutside : ∀ command ∈ readInCircle, command.FromOutside := by
  intro command hcommand
  simp only [readInCircle, List.mem_cons, List.not_mem_nil, or_false] at hcommand
  rcases hcommand with rfl | rfl <;> trivial

/-- An engine with deletions to report and with a registered tag. -/
def unreported : Engine Unit := (twoCells.update ∅).addLink ⟨"x"⟩ ⟨7⟩ true

/-- A declared and a discovered edge are restored, and nothing is left of what was there before. -/
theorem mutualReader_restores : ∃ events k,
    mutualReader.session 3 readInCircle (.withFlags {}) () = some (events, k) ∧
    k.document.edges = [(⟨0⟩, ⟨1⟩), (⟨1⟩, ⟨0⟩)] ∧ unreported.deleted = [⟨0⟩, ⟨1⟩] ∧
    unreported.links ≠ ∅ ∧
    (unreported.restore k.document).document = k.document ∧
    (unreported.restore k.document).links = ∅ ∧ (unreported.restore k.document).deleted = [] := by
  obtain ⟨⟨events, k⟩, hsession, hedges⟩ : ∃ found,
      mutualReader.session 3 readInCircle (.withFlags {}) () = some found ∧
        decide (found.2.document.edges = [(⟨0⟩, ⟨1⟩), (⟨1⟩, ⟨0⟩)]) = true :=
    (Option.any_eq_true _ _).1 (by decide +kernel)
  have hstart : mutualReader.History (fun _ command => command.FromOutside) (.withFlags {}) []
      (.withFlags {}) :=
    .start
  have hhistory := hstart.append_session
    (fun command hcommand _ => readInCircle_fromOutside command hcommand) hsession
  obtain ⟨hdocument, -, -, hlinks, hdeleted, -⟩ :=
    mutualReader_onlyReads.restores hhistory unreported
  exact ⟨events, k, hsession, of_decide_eq_true hedges, by decide +kernel, by decide +kernel,
    hdocument, hlinks, hdeleted⟩

end Notebook
