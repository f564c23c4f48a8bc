import Mathlib.Data.List.Dedup
import Mathlib.Data.List.Sort
import Notebook.Proofs.Engine.Edits
import Notebook.Proofs.Graph.Edges

/-!
# The normal form of a saved notebook

A file that was edited by hand, or written by another program, may be inconsistent in many ways.
It may file a snapshot under one identity and have another one written in it, list tags in any
order and repeat them, repeat edges, list edges of cells that it does not hold, and declare
references without listing their edges. The engine takes all of it, and

> **what it saves next is the normal form of what it was given**,

which is a function of the file alone. The normal form is its own normal form, so one
restoring settles a file for good.
-/

set_option autoImplicit false

namespace Notebook

open Std

/-! ## 1. Ascending lists -/

section

variable {α : Type} [DecidableEq α]

/-- The members of a list, sorted and once each. -/
def ascending (cmp : α → α → Ordering) (xs : List α) : List α :=
  xs.dedup.mergeSort fun a b => (cmp a b).isLE

variable {cmp : α → α → Ordering}

@[simp] theorem mem_ascending {xs : List α} {x : α} : x ∈ ascending cmp xs ↔ x ∈ xs := by
  rw [ascending, List.mem_mergeSort, List.mem_dedup]

variable [TransCmp cmp] [LawfulEqCmp cmp]

theorem pairwise_ascending (xs : List α) :
    (ascending cmp xs).Pairwise fun a b => cmp a b = .lt := by
  have hsorted : (ascending cmp xs).Pairwise fun a b => (cmp a b).isLE = true := by
    refine List.pairwise_mergeSort (fun a b c => TransCmp.isLE_trans) ?_ _
    intro a b
    have hswap : cmp b a = (cmp a b).swap := OrientedCmp.eq_swap
    rw [hswap]
    cases cmp a b <;> rfl
  have hnodup : (ascending cmp xs).Nodup := (List.mergeSort_perm _ _).nodup_iff.2 xs.nodup_dedup
  refine hsorted.imp₂ ?_ hnodup
  intro a b hle hne
  cases h : cmp a b with
  | lt => rfl
  | eq => exact absurd (LawfulEqCmp.eq_of_compare h) hne
  | gt => rw [h] at hle; cases hle

/-- **No other list** with these members is sorted and has each of them once. -/
theorem eq_ascending_iff {xs ys : List α} :
    ys = ascending cmp xs ↔ ys.Pairwise (fun a b => cmp a b = .lt) ∧ ∀ x, x ∈ ys ↔ x ∈ xs := by
  have hirrefl : Std.Irrefl fun a b => cmp a b = .lt :=
    ⟨fun _ hlt => Ordering.noConfusion (ReflCmp.compare_self.symm.trans hlt)⟩
  have hantisymm : Std.Antisymm fun a b => cmp a b = .lt :=
    ⟨fun _ _ hab hba => absurd hba (OrientedCmp.not_lt_of_lt hab)⟩
  constructor
  · rintro rfl
    exact ⟨pairwise_ascending xs, fun x => mem_ascending⟩
  · rintro ⟨hsorted, hmem⟩
    exact hsorted.eq_of_mem_iff (pairwise_ascending xs) fun x => (hmem x).trans mem_ascending.symm

theorem ascending_ascending (xs : List α) : ascending cmp (ascending cmp xs) = ascending cmp xs :=
  (eq_ascending_iff.2 ⟨pairwise_ascending xs, fun _ => Iff.rfl⟩).symm

/-- A set is listed in this way, whatever it was collected from. -/
theorem toList_ofList_eq_ascending (xs : List α) :
    (ExtTreeSet.ofList xs cmp).toList = ascending cmp xs := by
  refine eq_ascending_iff.2 ⟨ExtTreeSet.ordered_toList, fun x => ?_⟩
  rw [ExtTreeSet.mem_toList, ExtTreeSet.mem_ofList, List.contains_iff_mem]

end

/-! ## 2. The normal form -/

/-- The snapshot as it is filed: under this identity, with its tags listed in order and
once each. -/
def Snapshot.normalized (s : Snapshot) (id : CellId) : Snapshot :=
  { s with
    cellId := id
    inputs := s.inputs.map fun _ tags => ascending compare tags
    outputTags := ascending compare s.outputTags }

theorem Snapshot.normalized_normalized (s : Snapshot) (id : CellId) :
    (s.normalized id).normalized id = s.normalized id := by
  rw [normalized, normalized, ExtTreeMap.map_map]
  simp only [ascending_ascending]

namespace Document

variable (d : Document) {p c : CellId}

/-- The references that the snapshots declare, as edges. -/
def declaredEdges : List (CellId × CellId) :=
  d.cells.toList.flatMap fun entry => entry.2.inputs.keys.map fun parent => (parent, entry.1)

/-- What is left of an inconsistent notebook: each snapshot as it is filed, and the edges that are
listed or declared between its cells, in order and once each. -/
def normalized : Document where
  cells := d.cells.map fun id s => s.normalized id
  edges := ascending comparePairs
    ((d.edges ++ d.declaredEdges).filter fun edge => d.cells.contains edge.1 &&
      d.cells.contains edge.2)

/-- Both cells are there, and the edge between them is declared or listed. -/
def Joins (p c : CellId) : Prop :=
  d.cells.contains p = true ∧ d.cells.contains c = true ∧
    ((∃ s, d.cells[c]? = some s ∧ s.inputs.contains p = true) ∨ (p, c) ∈ d.edges)

variable {d}

theorem mem_declaredEdges :
    (p, c) ∈ d.declaredEdges ↔ ∃ s, d.cells[c]? = some s ∧ s.inputs.contains p = true := by
  simp only [declaredEdges, List.mem_flatMap, List.mem_map, Prod.exists, Prod.mk.injEq,
    ExtTreeMap.mem_toList_iff_getElem?_eq_some, ExtTreeMap.mem_keys, ExtTreeMap.contains_iff_mem]
  constructor
  · rintro ⟨_, s, hs, _, hinput, rfl, rfl⟩
    exact ⟨s, hs, hinput⟩
  · rintro ⟨s, hs, hinput⟩
    exact ⟨c, s, hs, p, hinput, rfl, rfl⟩

theorem mem_edges_normalized : (p, c) ∈ d.normalized.edges ↔ d.Joins p c := by
  rw [normalized, mem_ascending, List.mem_filter, List.mem_append, mem_declaredEdges,
    Bool.and_eq_true, and_comm, and_assoc, or_comm, Joins]

theorem getElem?_normalized (id : CellId) :
    d.normalized.cells[id]? = (d.cells[id]?).map fun s => s.normalized id :=
  ExtTreeMap.getElem?_map

theorem contains_normalized (id : CellId) : d.normalized.cells.contains id = d.cells.contains id :=
  ExtTreeMap.contains_map

/-- **The normal form is determined** by its snapshots, and by what it lists in order and once
each. -/
theorem eq_normalized {n : Document}
    (hcells : ∀ id : CellId, n.cells[id]? = (d.cells[id]?).map fun s => s.normalized id)
    (hedges : ∀ p c, (p, c) ∈ n.edges ↔ d.Joins p c)
    (hsorted : n.edges.Pairwise fun a b => comparePairs a b = .lt) : n = d.normalized := by
  have hsame : n.cells = d.normalized.cells :=
    ExtTreeMap.ext_getElem? fun id => (hcells id).trans (getElem?_normalized id).symm
  have hlisted : n.edges = d.normalized.edges := by
    refine eq_ascending_iff.2 ⟨hsorted, ?_⟩
    rintro ⟨p, c⟩
    rw [hedges, ← mem_edges_normalized, normalized, mem_ascending]
  exact congrArg₂ Document.mk hsame hlisted

/-- The edges that the normal form declares were declared before, so they are among those that it
lists. -/
theorem joins_normalized : d.normalized.Joins p c ↔ d.Joins p c := by
  rw [Joins, mem_edges_normalized, contains_normalized, contains_normalized, getElem?_normalized]
  constructor
  · rintro ⟨hp, hc, ⟨s, hs, hinput⟩ | hjoins⟩
    · obtain ⟨t, ht, rfl⟩ := Option.map_eq_some_iff.1 hs
      rw [Snapshot.normalized, ExtTreeMap.contains_map] at hinput
      exact ⟨hp, hc, .inl ⟨t, ht, hinput⟩⟩
    · exact hjoins
  · intro hjoins
    exact ⟨hjoins.1, hjoins.2.1, .inr hjoins⟩

theorem normalized_normalized (d : Document) : d.normalized.normalized = d.normalized := by
  refine (eq_normalized ?_ (fun p c => ?_) (pairwise_ascending _)).symm
  · intro id
    rw [getElem?_normalized, Option.map_map]
    congr 1
    funext s
    exact (s.normalized_normalized id).symm
  · exact mem_edges_normalized.trans joins_normalized.symm

end Document

/-! ## 3. Restoring -/

namespace Engine

variable {V : Type}

/-- A restored cell shows its snapshot as it is filed. -/
theorem snapshot_revise_new (s : Snapshot) (id : CellId) :
    ((Cell.new : Cell V).revise s.toRevision).snapshot id = s.normalized id := by
  rw [Cell.revise_new, Snapshot.toRevision, Cell.snapshot, Snapshot.normalized, ExtTreeMap.map_map]
  simp only [toList_ofList_eq_ascending]

theorem document_restore (k : Engine V) (d : Document) : (k.restore d).document = d.normalized := by
  refine Document.eq_normalized ?_ (fun p c => ?_) (Graph.pairwise_edges _)
  · intro id
    rw [document, snapshots, ExtTreeMap.getElem?_map, getElem?_restore, Option.map_map]
    congr 1
    funext s
    exact snapshot_revise_new s id
  · exact Graph.mem_edges.trans mem_graph_restore

/-- **Restoring normalises a notebook once.** Whatever is restored, and wherever, its normal form
is saved next, and the normal form is restored and saved as it is. -/
theorem restore_normalizes (k : Engine V) (d : Document) :
    (k.restore d).document = d.normalized ∧
      ∀ {W : Type} (k₂ : Engine W), (k₂.restore d.normalized).document = d.normalized := by
  refine ⟨k.document_restore d, fun k₂ => ?_⟩
  rw [k₂.document_restore, d.normalized_normalized]

end Engine

end Notebook
