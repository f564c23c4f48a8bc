import Notebook.Proofs.Links.Tables

/-!
# Forgetting a cell erases its past

A cell may have been registered and made current many times, have gone to the top of
one stack past the other cells and have been forgotten in between. Once it is forgotten
for good, none of this shows:

> **the registry is the one** that the same history makes without the operations on that cell,

with all its stacks, so in which order the other cells stand on a stack never depends on it. This
holds of operations on one cell at a time. A batch of declarations looks at who else defines a
tag, and an operation on one cell can decide there whether another one is promoted.

Forgetting passes each operation of the history on its way back to the beginning. An operation on
another cell may as well be done afterwards, and one on the same cell need not be done at all.
-/

set_option autoImplicit false

namespace Notebook.Links

open Std

variable {l : Links} {operation : Operation} {tag t : Tag} {cell c d : CellId}

/-! ## 1. Histories without a cell -/

namespace Operation

/-- Is it an operation on this cell? -/
def concerns (cell : CellId) : Operation → Bool
  | .addLink _ c _ => c = cell
  | .removeLinks c => c = cell
  | _ => false

/-- Is it a batch of declarations? -/
def isBatch : Operation → Bool
  | .addLinks _ => true
  | _ => false

end Operation

/-- The same history with every operation on the cell left out. -/
def without (cell : CellId) (history : List Operation) : List Operation :=
  history.filter fun operation => !operation.concerns cell

theorem without_concat (history : List Operation) :
    without cell (history ++ [operation]) =
      if operation.concerns cell then without cell history
      else without cell history ++ [operation] := by
  rw [without, List.filter_append]
  cases hconcerns : operation.concerns cell <;> simp [without, hconcerns]

/-! ## 2. Forgetting passes an operation -/

section

variable (hbacked : l.Backed) (hpruned : Pruned l.activations)

include hbacked hpruned

/-- A cell need not be registered, nor made current, before it is forgotten. -/
theorem removeLinks_addLink_self (tag : Tag) (cell : CellId) (makeCurrent : Bool) :
    (l.addLink tag cell makeCurrent).removeLinks cell = l.removeLinks cell := by
  have hadded := hpruned.perform (.addLink tag cell makeCurrent)
  refine eq_of_pruned (hadded.perform (.removeLinks cell)) (hpruned.perform (.removeLinks cell))
    (fun t c => ?_) fun t => ?_
  · rw [mem_definers_removeLinks, mem_definers_removeLinks, mem_definers_addLink]
    exact and_congr_left fun hne => or_iff_right fun h => hne h.2
  · rw [(hbacked.addLink tag cell makeCurrent).stack_removeLinks, hbacked.stack_removeLinks,
      stack_addLink]
    split
    · rename_i h
      -- The cell is taken off the stack on which it has been put.
      rw [← h.2]
      simp
    · rfl

theorem removeLinks_addLink_of_ne (hne : d ≠ cell) (tag : Tag) (makeCurrent : Bool) :
    (l.addLink tag d makeCurrent).removeLinks cell =
      (l.removeLinks cell).addLink tag d makeCurrent := by
  have hadded := hpruned.perform (.addLink tag d makeCurrent)
  have hremoved := hpruned.perform (.removeLinks cell)
  refine eq_of_pruned (hadded.perform (.removeLinks cell))
    (hremoved.perform (.addLink tag d makeCurrent)) (fun t c => ?_) fun t => ?_
  · rw [mem_definers_removeLinks, mem_definers_addLink, mem_definers_addLink,
      mem_definers_removeLinks, or_and_right]
    refine or_congr_left (and_iff_left_of_imp ?_)
    rintro ⟨-, rfl⟩
    exact hne
  · rw [(hbacked.addLink tag d makeCurrent).stack_removeLinks, stack_addLink, stack_addLink]
    split
    · rw [List.filter_cons, if_pos (decide_eq_true hne), hbacked.stack_removeLinks,
        List.filter_comm]
    · rw [hbacked.stack_removeLinks]

/-- In which order two cells are forgotten does not matter. -/
theorem removeLinks_comm (cell d : CellId) :
    (l.removeLinks d).removeLinks cell = (l.removeLinks cell).removeLinks d := by
  have hfirst := hpruned.perform (.removeLinks d)
  have hsecond := hpruned.perform (.removeLinks cell)
  refine eq_of_pruned (hfirst.perform (.removeLinks cell)) (hsecond.perform (.removeLinks d))
    (fun t c => ?_) fun t => ?_
  · simp only [mem_definers_removeLinks, and_right_comm]
  · rw [(hbacked.removeLinks d).stack_removeLinks, (hbacked.removeLinks cell).stack_removeLinks,
      hbacked.stack_removeLinks, hbacked.stack_removeLinks, List.filter_comm]

theorem removeLinks_removeLinks (cell : CellId) :
    (l.removeLinks cell).removeLinks cell = l.removeLinks cell := by
  have hremoved := hpruned.perform (.removeLinks cell)
  refine eq_of_pruned (hremoved.perform (.removeLinks cell)) hremoved (fun t c => ?_) fun t => ?_
  · simp only [mem_definers_removeLinks, and_assoc, and_self]
  · rw [(hbacked.removeLinks cell).stack_removeLinks, hbacked.stack_removeLinks, List.filter_filter]
    simp only [Bool.and_self]

/-- **Forgetting passes an operation** that is no batch, and takes it away if it is one on the
same cell. -/
theorem removeLinks_perform (hsingle : operation.isBatch = false) :
    (l.perform operation).removeLinks cell =
      if operation.concerns cell then l.removeLinks cell
        else (l.removeLinks cell).perform operation := by
  cases operation with
  | addLink tag d makeCurrent =>
    by_cases hd : d = cell
    · subst hd
      rw [Operation.concerns, decide_eq_true rfl, if_pos rfl]
      exact removeLinks_addLink_self hbacked hpruned tag d makeCurrent
    · rw [Operation.concerns, decide_eq_false hd, if_neg Bool.false_ne_true]
      exact removeLinks_addLink_of_ne hbacked hpruned hd tag makeCurrent
  | addLinks declared => cases hsingle
  | removeLinks d =>
    by_cases hd : d = cell
    · subst hd
      rw [Operation.concerns, decide_eq_true rfl, if_pos rfl]
      exact removeLinks_removeLinks hbacked hpruned d
    · rw [Operation.concerns, decide_eq_false hd, if_neg Bool.false_ne_true]
      exact removeLinks_comm hbacked hpruned cell d
  | clear => exact removeLinks_empty cell

end

/-! ## 3. Forgetting passes a history -/

/-- **Forgetting a cell erases its past.** After operations on one cell at a time, forgetting a
cell leaves the registry that the operations on the other cells make alone. The other cells were
in the same order on each stack before. -/
theorem erased_past (history : List Operation) (cell : CellId)
    (hsingle : ∀ operation ∈ history, operation.isBatch = false) :
    after (history ++ [.removeLinks cell]) = after (without cell history) ∧
      ∀ tag, ((after history).stack tag).filter (fun c => c ≠ cell) =
        (after (without cell history)).stack tag := by
  have herased : (after history).removeLinks cell = after (without cell history) := by
    induction history using List.reverseRecOn with
    | nil => exact removeLinks_empty cell
    | append_singleton history operation ih =>
      have hbefore := ih fun operation h => hsingle operation (List.mem_append_left _ h)
      have hlast := hsingle operation (List.mem_append_right _ (List.mem_singleton_self operation))
      rw [after_concat, removeLinks_perform (backed_after history) (pruned_after history) hlast,
        without_concat, hbefore]
      split
      · rfl
      · rw [after_concat]
  refine ⟨(after_concat history _).trans herased, fun tag => ?_⟩
  rw [← (backed_after history).stack_removeLinks, herased]

/-- Two cells take turns at one tag, and the first one defines another tag as well. -/
def turns : List Operation :=
  [.addLink ⟨"t"⟩ ⟨1⟩ true, .addLink ⟨"t"⟩ ⟨2⟩ true, .addLink ⟨"t"⟩ ⟨1⟩ true,
    .addLink ⟨"u"⟩ ⟨1⟩ false,
    .removeLinks ⟨2⟩, .addLink ⟨"t"⟩ ⟨3⟩ true, .addLink ⟨"t"⟩ ⟨2⟩ true, .removeLinks ⟨1⟩,
    .addLink ⟨"t"⟩ ⟨1⟩ true]

theorem turns_erased_past :
    (∀ operation ∈ turns, operation.isBatch = false) ∧
      after (turns ++ [.removeLinks ⟨1⟩]) = after (without ⟨1⟩ turns) ∧
      (after (without ⟨1⟩ turns)).stack ⟨"t"⟩ = [⟨2⟩, ⟨3⟩] := by
  have hsingle : ∀ operation ∈ turns, operation.isBatch = false := by decide
  obtain ⟨herased, hstack⟩ := erased_past turns ⟨1⟩ hsingle
  refine ⟨hsingle, herased, ?_⟩
  rw [← hstack]
  decide +kernel

/-- A batch is another matter: cell 2 is promoted only if cell 1 was not registered before. -/
example :
    let declared : Declarations :=
      (∅ : Declarations).insert ⟨"t"⟩ (ExtTreeSet.ofList [(⟨2⟩ : CellId)])
    let history : List Operation := [.addLink ⟨"t"⟩ ⟨1⟩ false, .addLinks declared]
    (after (history ++ [.removeLinks ⟨1⟩])).stack ⟨"t"⟩ = [] ∧
      (after (without ⟨1⟩ history)).stack ⟨"t"⟩ = [⟨2⟩] := by decide +kernel

end Notebook.Links
