import Notebook.Proofs.Links.Activation

/-!
# The tables of a registry

A registry keeps three tables: who defines a tag, which tags a cell defines, and who is current
for a tag. When a cell is forgotten, nothing but its own tags is looked through. So a definer that
the table of tags does not know of would stay for good, and so would an entry that is stored with
nothing in it. Neither comes about:

> **after every history** the table of definers and the table of tags hold the same definitions,
> whoever is current defines the tag and is current once, and nothing is stored empty.

Hence a registry is determined by its definers and its stacks, and one without definers is a new
one.
-/

set_option autoImplicit false

namespace Notebook.Links

open Std

variable {l m : Links} {activations : ExtTreeMap Tag (List CellId)} {tag t : Tag} {cell c : CellId}
  {history : List Operation}

/-! ## 1. No stack is stored empty -/

/-- No stack is stored empty. -/
def Pruned (activations : ExtTreeMap Tag (List CellId)) : Prop :=
  ∀ t : Tag, activations[t]? ≠ some []

namespace Pruned

theorem empty : Pruned ∅ := by
  intro t
  simp

theorem setStack (h : Pruned activations) (tag : Tag) (stack : List CellId) :
    Pruned (setStack activations tag stack) := by
  intro t
  cases stack with
  | nil =>
    rw [Links.setStack, List.isEmpty_nil, if_pos rfl, ExtTreeMap.getElem?_erase]
    split
    · simp
    · exact h t
  | cons top rest =>
    rw [Links.setStack, List.isEmpty_cons, if_neg Bool.false_ne_true, ExtTreeMap.getElem?_insert]
    split
    · simp
    · exact h t

theorem deactivate (h : Pruned activations) (cell : CellId) (tags : List Tag) :
    Pruned (deactivate activations cell tags) :=
  List.foldlRecOn tags _ h fun _ hm tag _ => hm.setStack tag _

theorem perform (h : Pruned l.activations) (operation : Operation) :
    Pruned (l.perform operation).activations :=
  perform_induction (motive := fun m => Pruned m.activations) (fun _ _ _ hm => hm)
    (fun _ tag _ _ hm => hm.setStack tag _)
    (fun _ cell hm => hm.deactivate cell _) .empty h operation

/-- A stack is stored if and only if somebody is on it. -/
theorem getElem?_activations (h : Pruned l.activations) (t : Tag) :
    l.activations[t]? = if l.stack t = [] then none else some (l.stack t) := by
  rw [stack, ExtTreeMap.getD_eq_getD_getElem?]
  cases hstored : l.activations[t]? with
  | none => simp
  | some stack =>
    have hne : stack ≠ [] := fun hnil => h t (hnil ▸ hstored)
    simp [hne]

end Pruned

theorem pruned_after (history : List Operation) : Pruned (after history).activations :=
  List.foldlRecOn (motive := fun l : Links => Pruned l.activations) history perform .empty
    fun _ hl operation _ => hl.perform operation

/-- **The same definers and the same stacks** make the same registry. -/
theorem eq_of_pruned (hl : Pruned l.activations) (hm : Pruned m.activations)
    (hdefiners : ∀ t c, c ∈ l.definers t ↔ c ∈ m.definers t) (hstack : ∀ t, l.stack t = m.stack t) :
    l = m := by
  have hdefinitions : l.definitions = m.definitions := PairSet.ext hdefiners
  have hactivations : l.activations = m.activations := by
    apply ExtTreeMap.ext_getElem?
    intro t
    rw [hl.getElem?_activations, hm.getElem?_activations, hstack t]
  cases l
  cases m
  cases hdefinitions
  cases hactivations
  rfl

/-! ## 2. After every history -/

/-- The tables say the same and hold no more than there is to say. -/
structure Consistent (l : Links) : Prop where
  mirrored : ∀ t c, (∃ cells, l.definers? t = some cells ∧ c ∈ cells) ↔
    ∃ tags, l.tagsOf? c = some tags ∧ t ∈ tags
  definers_ne_empty : ∀ t, l.definers? t ≠ some ∅
  tags_ne_empty : ∀ c, l.tagsOf? c ≠ some ∅
  stack_ne_nil : ∀ t : Tag, l.activations[t]? ≠ some []
  backed : l.Backed
  nodup : ∀ t, (l.stack t).Nodup

theorem exists_mem_definers?_iff :
    (∃ cells, l.definers? t = some cells ∧ c ∈ cells) ↔ c ∈ l.definers t :=
  Rows.exists_mem_row?_iff

theorem exists_mem_tagsOf?_iff : (∃ tags, l.tagsOf? c = some tags ∧ t ∈ tags) ↔ t ∈ l.tagsOf c :=
  Rows.exists_mem_row?_iff

theorem consistent_after (history : List Operation) : (after history).Consistent where
  mirrored t c := by rw [exists_mem_definers?_iff, exists_mem_tagsOf?_iff, mem_tagsOf]
  definers_ne_empty t := Rows.row?_ne_empty _ t
  tags_ne_empty c := Rows.row?_ne_empty _ c
  stack_ne_nil := pruned_after history
  backed := backed_after history
  nodup _ := nodup_stack_after

/-- Whoever is current defines the tag, so where nobody defines anything nobody is current. -/
theorem after_eq_empty (hnone : ∀ t c, c ∉ (after history).definers t) : after history = ∅ := by
  refine eq_of_pruned (pruned_after history) .empty (fun t c => ?_) fun t => ?_
  · simp [hnone t c]
  · rw [stack_empty, List.eq_nil_iff_forall_not_mem]
    exact fun c hc => hnone t c (backed_after history t c hc)

/-- **The tables are consistent after every history.** They hold the definitions that were
registered and not forgotten since, and when none is left the registry is a new one. -/
theorem tables_after (history : List Operation) :
    (after history).Consistent ∧
      (∀ t c, (∃ cells, (after history).definers? t = some cells ∧ c ∈ cells) ↔
        ∃ n, RegisteredAt history t c n) ∧
      (after history = ∅ ↔ ∀ t c, c ∉ (after history).definers t) := by
  refine ⟨consistent_after history, fun t c => ?_, ?_, after_eq_empty⟩
  · rw [exists_mem_definers?_iff, mem_definers_after]
  · intro hempty t c
    simp [hempty]

end Notebook.Links
