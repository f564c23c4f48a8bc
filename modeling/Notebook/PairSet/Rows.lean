import Std.Data.ExtTreeMap
import Std.Data.ExtTreeSet

/-!
# Rows: a set of pairs, indexed from the left

`Rows α β` stores a finite set of pairs row by row: for each left component that occurs, the set
of right components it occurs with. A row is never empty, so the keys of the table are exactly the
left components, and one set of pairs has one representation:

> **extensionality**: two tables with the same pairs are equal (`Rows.ext`).

The view of a table is `b ∈ r.row a`. Each operation comes with the one lemma that says what it
does to that view; after that nothing needs to look inside.
-/

set_option autoImplicit false
set_option linter.unusedSectionVars false

namespace Notebook

open Std

/-- A finite set of pairs, stored as one nonempty set per left component. -/
structure Rows (α β : Type) [Ord α] [TransOrd α] [Ord β] where
  table : ExtTreeMap α (ExtTreeSet β)
  ne_empty : ∀ {a : α} {s : ExtTreeSet β}, table[a]? = some s → s ≠ ∅

namespace Rows

variable {α β : Type} [Ord α] [TransOrd α] [LawfulEqOrd α] [Ord β] [TransOrd β] [LawfulEqOrd β]

/-! ## 1. The view -/

/-- The right components that occur with `a`. -/
def row (r : Rows α β) (a : α) : ExtTreeSet β :=
  r.table.getD a ∅

theorem row_eq (r : Rows α β) (a : α) : r.row a = (r.table[a]?).getD ∅ := by
  rw [row, ExtTreeMap.getD_eq_getD_getElem?]

theorem row_of_table {r : Rows α β} {a : α} {s : ExtTreeSet β} (h : r.table[a]? = some s) :
    r.row a = s := by
  rw [row_eq, h, Option.getD_some]

theorem getElem?_table {r : Rows α β} {a : α} {b : β} (h : b ∈ r.row a) :
    r.table[a]? = some (r.row a) := by
  rw [row_eq] at h ⊢
  cases hrow : r.table[a]? with
  | none =>
    rw [hrow] at h
    simp at h
  | some row => rfl

/-- A row that is stored is not empty. -/
theorem exists_mem_row {r : Rows α β} {a : α} {s : ExtTreeSet β} (h : r.table[a]? = some s) :
    ∃ b, b ∈ r.row a := by
  rw [row_of_table h]
  refine Classical.not_forall_not.1 fun hnone => ?_
  exact r.ne_empty h (ExtTreeSet.eq_empty_iff_forall_not_mem.2 hnone)

/-- **One set of pairs, one representation.** -/
theorem ext {r t : Rows α β} (h : ∀ a b, b ∈ r.row a ↔ b ∈ t.row a) : r = t := by
  obtain ⟨m, hm⟩ := r
  obtain ⟨n, hn⟩ := t
  have hmn : m = n := by
    apply ExtTreeMap.ext_getElem?
    intro a
    have hrow : (m[a]?).getD ∅ = (n[a]?).getD ∅ := by
      apply ExtTreeSet.ext_mem
      intro b
      simpa [row_eq] using h a b
    cases hma : m[a]? with
    | none =>
      cases hna : n[a]? with
      | none => rfl
      | some s => exact absurd (by simpa [hma, hna] using hrow.symm) (hn hna)
    | some s =>
      cases hna : n[a]? with
      | none => exact absurd (by simpa [hma, hna] using hrow) (hm hma)
      | some t => simpa [hma, hna] using hrow
  subst hmn
  rfl

instance [DecidableEq β] : DecidableEq (Rows α β) := fun r t =>
  decidable_of_iff (r.table = t.table) ⟨fun e => by cases r; cases t; simp_all, fun e => by rw [e]⟩

/-! ## 2. Operations -/

def empty : Rows α β := ⟨∅, by simp⟩

instance : EmptyCollection (Rows α β) := ⟨empty⟩

@[simp] theorem row_empty (a : α) : (∅ : Rows α β).row a = ∅ := by
  show (empty : Rows α β).row a = ∅
  simp [row_eq, empty]

/-- Replaces the row of `a`; an empty row is dropped. -/
def setRow (r : Rows α β) (a : α) (s : ExtTreeSet β) : Rows α β :=
  if h : s = ∅ then
    ⟨r.table.erase a, by
      intro x t hx
      rw [ExtTreeMap.getElem?_erase] at hx
      split at hx
      · simp at hx
      · exact r.ne_empty hx⟩
  else
    ⟨r.table.insert a s, by
      intro x t hx
      rw [ExtTreeMap.getElem?_insert] at hx
      split at hx
      · simp only [Option.some.injEq] at hx; exact hx ▸ h
      · exact r.ne_empty hx⟩

theorem row_setRow (r : Rows α β) (a x : α) (s : ExtTreeSet β) :
    (r.setRow a s).row x = if compare a x = .eq then s else r.row x := by
  unfold setRow
  split
  · rename_i h
    simp only [row_eq, ExtTreeMap.getElem?_erase, h]
    split <;> simp_all
  · simp only [row_eq, ExtTreeMap.getElem?_insert]
    split <;> simp_all

def insert (r : Rows α β) (a : α) (b : β) : Rows α β :=
  r.setRow a ((r.row a).insert b)

theorem mem_row_insert (r : Rows α β) (a x : α) (b y : β) :
    y ∈ (r.insert a b).row x ↔ (x = a ∧ y = b) ∨ y ∈ r.row x := by
  rw [insert, row_setRow]
  by_cases h : a = x
  · subst h
    rw [if_pos compare_self, ExtTreeSet.mem_insert, Std.compare_eq_iff_eq]
    simp [eq_comm]
  · simp [h, Ne.symm h]

def erase (r : Rows α β) (a : α) (b : β) : Rows α β :=
  r.setRow a ((r.row a).erase b)

theorem mem_row_erase (r : Rows α β) (a x : α) (b y : β) :
    y ∈ (r.erase a b).row x ↔ y ∈ r.row x ∧ ¬ (x = a ∧ y = b) := by
  rw [erase, row_setRow]
  by_cases h : a = x
  · subst h
    rw [if_pos compare_self, ExtTreeSet.mem_erase, Ne, Std.compare_eq_iff_eq]
    simp [eq_comm, and_comm]
  · simp [h, Ne.symm h]

/-- Removes every pair with `a` on the left. -/
def eraseRow (r : Rows α β) (a : α) : Rows α β :=
  r.setRow a ∅

theorem mem_row_eraseRow (r : Rows α β) (a x : α) (y : β) :
    y ∈ (r.eraseRow a).row x ↔ y ∈ r.row x ∧ x ≠ a := by
  rw [eraseRow, row_setRow]
  by_cases h : a = x
  · simp [h]
  · simp [h, Ne.symm h]

/-! ## 3. Listing -/

/-- The left components that occur, ascending. -/
def keys (r : Rows α β) : List α :=
  r.table.keys

/-- The set of right components of `a`, or nothing if `a` does not occur. -/
def row? (r : Rows α β) (a : α) : Option (ExtTreeSet β) :=
  r.table[a]?

/-- All pairs, ascending by the left and then by the right component. -/
def toList (r : Rows α β) : List (α × β) :=
  r.table.toList.flatMap fun p => p.2.toList.map fun b => (p.1, b)

def size (r : Rows α β) : Nat :=
  r.toList.length

/-- Is there no pair at all? -/
def isEmpty (r : Rows α β) : Bool :=
  r.table.isEmpty

theorem mem_keys {r : Rows α β} {a : α} : a ∈ r.keys ↔ a ∈ r.table := by
  simp [keys]

theorem row?_ne_empty (r : Rows α β) (a : α) : r.row? a ≠ some ∅ :=
  fun h => r.ne_empty h rfl

/-- What is in the row of `a` is in the set that is stored for `a`. -/
theorem exists_mem_row?_iff {r : Rows α β} {a : α} {b : β} :
    (∃ s, r.row? a = some s ∧ b ∈ s) ↔ b ∈ r.row a := by
  constructor
  · rintro ⟨s, hs, hb⟩
    rwa [row_of_table hs]
  · intro hb
    exact ⟨r.row a, getElem?_table hb, hb⟩

theorem isEmpty_iff {r : Rows α β} : r.isEmpty = true ↔ ∀ a b, b ∉ r.row a := by
  rw [isEmpty, ExtTreeMap.isEmpty_iff]
  constructor
  · intro h a b
    simp [row_eq, h]
  · intro h
    apply ExtTreeMap.ext_getElem?
    intro a
    rw [ExtTreeMap.getElem?_empty]
    refine Option.eq_none_iff_forall_ne_some.2 fun s hs => ?_
    obtain ⟨b, hb⟩ := exists_mem_row hs
    exact h a b hb

end Rows

end Notebook
