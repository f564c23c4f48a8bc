import Notebook.PairSet.Rows

/-!
# Sets of pairs, indexed from both sides

`PairSet α β` is a finite set of pairs that answers both questions fast: what occurs with
`a` on the left, and what occurs with `b` on the right. It keeps the pairs twice, once
indexed from each side, and the type says that the two indexes agree, so no operation can
leave a pair behind in one of them.

> **extensionality**: two sets of pairs with the same members are equal (`PairSet.ext`).

The dependency graph is a set of pairs of cells, and the registry of tags is a set of pairs of a
tag and a cell.
-/

set_option autoImplicit false
set_option linter.unusedSectionVars false

namespace Notebook

open Std

/-- A finite set of pairs with an index for each side. -/
structure PairSet (α β : Type) [Ord α] [TransOrd α] [Ord β] [TransOrd β] where
  rights : Rows α β
  lefts : Rows β α
  agree : ∀ a b, b ∈ rights.row a ↔ a ∈ lefts.row b

namespace PairSet

variable {α β : Type} [Ord α] [TransOrd α] [LawfulEqOrd α] [Ord β] [TransOrd β] [LawfulEqOrd β]

/-! ## 1. Membership -/

/-- The members of a set of pairs. -/
def Mem (s : PairSet α β) (p : α × β) : Prop := p.2 ∈ s.rights.row p.1

instance : Membership (α × β) (PairSet α β) := ⟨Mem⟩

theorem mem_iff_right {s : PairSet α β} {a : α} {b : β} : (a, b) ∈ s ↔ b ∈ s.rights.row a := Iff.rfl

theorem mem_iff_left {s : PairSet α β} {a : α} {b : β} : (a, b) ∈ s ↔ a ∈ s.lefts.row b :=
  s.agree a b

instance (s : PairSet α β) (p : α × β) : Decidable (p ∈ s) :=
  inferInstanceAs (Decidable (p.2 ∈ s.rights.row p.1))

/-- **One set of members, one representation.** -/
theorem ext {s t : PairSet α β} (h : ∀ a b, (a, b) ∈ s ↔ (a, b) ∈ t) : s = t := by
  have hr : s.rights = t.rights := Rows.ext h
  have hl : s.lefts = t.lefts := Rows.ext fun b a => by
    rw [← s.agree, ← t.agree]; exact h a b
  cases s; cases t
  cases hr; cases hl
  rfl

theorem eq_of_rights {s t : PairSet α β} (h : s.rights = t.rights) : s = t :=
  ext fun a b => by rw [mem_iff_right, mem_iff_right, h]

instance [DecidableEq β] : DecidableEq (PairSet α β) := fun s t =>
  decidable_of_iff (s.rights = t.rights) ⟨eq_of_rights, fun e => by rw [e]⟩

/-! ## 2. Operations -/

def empty : PairSet α β := ⟨∅, ∅, by simp⟩

instance : EmptyCollection (PairSet α β) := ⟨empty⟩

@[simp] theorem not_mem_empty (p : α × β) : p ∉ (∅ : PairSet α β) := by
  show ¬ p.2 ∈ (∅ : Rows α β).row p.1
  simp

/-- The set with left and right exchanged. -/
def swap (s : PairSet α β) : PairSet β α :=
  ⟨s.lefts, s.rights, fun b a => (s.agree a b).symm⟩

@[simp] theorem mem_swap {s : PairSet α β} {a : α} {b : β} : (b, a) ∈ s.swap ↔ (a, b) ∈ s :=
  (s.agree a b).symm

def insert (s : PairSet α β) (a : α) (b : β) : PairSet α β :=
  ⟨s.rights.insert a b, s.lefts.insert b a, fun x y => by
    rw [Rows.mem_row_insert, Rows.mem_row_insert, s.agree, and_comm]⟩

theorem mem_insert {s : PairSet α β} {a x : α} {b y : β} :
    (x, y) ∈ s.insert a b ↔ (x = a ∧ y = b) ∨ (x, y) ∈ s :=
  Rows.mem_row_insert s.rights a x b y

def erase (s : PairSet α β) (a : α) (b : β) : PairSet α β :=
  ⟨s.rights.erase a b, s.lefts.erase b a, fun x y => by
    rw [Rows.mem_row_erase, Rows.mem_row_erase, s.agree, and_comm (a := x = a)]⟩

theorem mem_erase {s : PairSet α β} {a x : α} {b y : β} :
    (x, y) ∈ s.erase a b ↔ (x, y) ∈ s ∧ ¬ (x = a ∧ y = b) :=
  Rows.mem_row_erase s.rights a x b y

/-- Removing `a` from several rows, one after the other. -/
theorem mem_row_foldl_erase (r : Rows β α) (a : α) (bs : List β) (x : α) (y : β) :
    x ∈ (bs.foldl (fun t b => t.erase b a) r).row y ↔ x ∈ r.row y ∧ ¬ (x = a ∧ y ∈ bs) := by
  induction bs generalizing r with
  | nil => simp
  | cons b bs ih =>
    rw [List.foldl_cons, ih, Rows.mem_row_erase]
    simp only [List.mem_cons]
    constructor
    · rintro ⟨⟨h, h1⟩, h2⟩
      refine ⟨h, ?_⟩
      rintro ⟨hx, hy | hy⟩
      · exact h1 ⟨hy, hx⟩
      · exact h2 ⟨hx, hy⟩
    · rintro ⟨h, h1⟩
      exact ⟨⟨h, fun h2 => h1 ⟨h2.2, Or.inl h2.1⟩⟩, fun h2 => h1 ⟨h2.1, Or.inr h2.2⟩⟩

/-- Removes every pair with `a` on the left. -/
def eraseLeft (s : PairSet α β) (a : α) : PairSet α β :=
  ⟨s.rights.eraseRow a,
    (s.rights.row a).toList.foldl (fun t b => t.erase b a) s.lefts,
    fun x y => by
      rw [Rows.mem_row_eraseRow, mem_row_foldl_erase, ExtTreeSet.mem_toList, s.agree]
      constructor
      · rintro ⟨h, hx⟩
        exact ⟨h, fun h2 => hx h2.1⟩
      · rintro ⟨h, h2⟩
        refine ⟨h, fun hx => h2 ⟨hx, ?_⟩⟩
        subst hx
        exact (s.agree _ _).2 h⟩

theorem mem_eraseLeft {s : PairSet α β} {a x : α} {y : β} :
    (x, y) ∈ s.eraseLeft a ↔ (x, y) ∈ s ∧ x ≠ a :=
  Rows.mem_row_eraseRow s.rights a x y

/-- Removes every pair with `b` on the right. -/
def eraseRight (s : PairSet α β) (b : β) : PairSet α β :=
  (s.swap.eraseLeft b).swap

theorem mem_eraseRight {s : PairSet α β} {x : α} {b y : β} :
    (x, y) ∈ s.eraseRight b ↔ (x, y) ∈ s ∧ y ≠ b := by
  rw [eraseRight, mem_swap, mem_eraseLeft, mem_swap]

/-! ## 3. Listing -/

/-- All pairs, ascending by the left and then by the right component. -/
def toList (s : PairSet α β) : List (α × β) :=
  s.rights.toList

def size (s : PairSet α β) : Nat :=
  s.rights.size

/-- Is there no pair at all? -/
def isEmpty (s : PairSet α β) : Bool :=
  s.rights.isEmpty

end PairSet

end Notebook
