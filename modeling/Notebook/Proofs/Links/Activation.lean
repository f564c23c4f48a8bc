import Mathlib.Data.List.Induction
import Notebook.Proofs.Links.Registry
import Notebook.Proofs.Listing

/-!
# Resolution is decided by activation history

A registry is changed by four operations. Some of them *activate* a cell for a tag: the one that
makes the cell current when it registers it, and a batch of declarations at whose end the cell is
the only definer of a tag that nobody is current for. An activation stays live until everything
that the cell defines is forgotten. How a tag resolves can be told from the live activations
alone, whatever is done to the registry in between:

> **the stack of a tag** lists the cells with a live activation for it, the one activated last
> first, and **a reference** resolves to the one activated last, of all cells or of those
> besides the cell that asks.

The batch asks for the definers of a tag and for whoever is current for it. Both are decided by
the history too.
-/

set_option autoImplicit false

namespace Notebook.Links

open Std

/-! ## 1. Histories of a registry -/

/-- What changes a registry. -/
inductive Operation where
  | addLink (tag : Tag) (cell : CellId) (makeCurrent : Bool)
  | addLinks (declared : Declarations)
  | removeLinks (cell : CellId)
  | clear

def perform (l : Links) : Operation → Links
  | .addLink tag cell makeCurrent => l.addLink tag cell makeCurrent
  | .addLinks declared => l.addLinks declared
  | .removeLinks cell => l.removeLinks cell
  | .clear => ∅

/-- A new registry after a history. -/
def after (history : List Operation) : Links :=
  history.foldl perform ∅

@[simp] theorem after_nil : after [] = ∅ := rfl

theorem after_concat (history : List Operation) (operation : Operation) :
    after (history ++ [operation]) = (after history).perform operation := by
  simp [after]

namespace Operation

/-- Does the operation record the cell as a definer of the tag? -/
def Registers (tag : Tag) (cell : CellId) (_ : Links) : Operation → Prop
  | .addLink added c _ => tag = added ∧ cell = c
  | .addLinks declared => cell ∈ declared.getD tag ∅
  | _ => False

/-- Does the operation make the cell current for the tag? A batch that registers the tag does if
nobody is current for the tag then and the cell is its only definer at the end of the batch. -/
def Activates (tag : Tag) (cell : CellId) (l : Links) : Operation → Prop
  | .addLink added c makeCurrent => makeCurrent = true ∧ tag = added ∧ cell = c
  | .addLinks declared => (∃ c, c ∈ declared.getD tag ∅) ∧ l.hasCurrent tag = false ∧
      ∀ c, c ∈ (l.addLinks declared).definers tag ↔ c = cell
  | _ => False

/-- Does the operation forget what the cell defines? -/
def Forgets (cell : CellId) : Operation → Prop
  | .removeLinks c => c = cell
  | .clear => True
  | _ => False

end Operation

/-- The operation at moment `n` did it, and no later one forgets what the cell defines. -/
def Stands (did : Links → Operation → Prop) (history : List Operation) (cell : CellId) (n : Nat) :
    Prop :=
  (∃ operation, history[n]? = some operation ∧ did (after (history.take n)) operation) ∧
    ∀ m operation, n < m → history[m]? = some operation → ¬ operation.Forgets cell

/-- At moment `n` the cell was registered for the tag, and what it defines is not
forgotten later. -/
def RegisteredAt (history : List Operation) (tag : Tag) (cell : CellId) (n : Nat) : Prop :=
  Stands (Operation.Registers tag cell) history cell n

/-- At moment `n` the cell was activated for the tag, and the activation is live. -/
def LiveAt (history : List Operation) (tag : Tag) (cell : CellId) (n : Nat) : Prop :=
  Stands (Operation.Activates tag cell) history cell n

/-- The cell has a live activation for the tag. -/
def Live (history : List Operation) (tag : Tag) (cell : CellId) : Prop :=
  ∃ n, LiveAt history tag cell n

/-- At moment `n` the cell has its latest live activation for the tag. -/
def LatestAt (history : List Operation) (tag : Tag) (cell : CellId) (n : Nat) : Prop :=
  LiveAt history tag cell n ∧ ∀ m, LiveAt history tag cell m → m ≤ n

/-- One of the given cells has the latest live activation for the tag of them all. -/
def Foremost (history : List Operation) (tag : Tag) (among : CellId → Prop) (cell : CellId) :
    Prop :=
  among cell ∧ ∃ n, LiveAt history tag cell n ∧ ∀ c m, among c → LiveAt history tag c m → m ≤ n

/-! ## 2. One more operation -/

section

variable {did : Links → Operation → Prop} {history : List Operation} {operation : Operation}
  {tag : Tag} {cell c d : CellId} {n : Nat}

theorem Stands.lt_length (h : Stands did history cell n) : n < history.length := by
  obtain ⟨⟨operation, hn, -⟩, -⟩ := h
  exact (List.getElem?_eq_some_iff.1 hn).1

theorem not_stands_nil : ¬ Stands did [] cell n := by
  intro h
  simpa using h.lt_length

/-- Either it is done now, or it was done before and is not forgotten now. -/
theorem stands_concat : Stands did (history ++ [operation]) cell n ↔
    n = history.length ∧ did (after history) operation ∨
      Stands did history cell n ∧ ¬ operation.Forgets cell := by
  constructor
  · intro h
    obtain ⟨⟨done, hn, hdid⟩, hkept⟩ := h
    cases getElem?_concat_eq_some.1 hn with
    | inl hn =>
      have hbefore := (List.getElem?_eq_some_iff.1 hn).1
      rw [List.take_append_of_le_length (Nat.le_of_lt hbefore)] at hdid
      refine .inr ⟨⟨⟨done, hn, hdid⟩, ?_⟩, hkept _ operation hbefore List.getElem?_concat_length⟩
      intro m other hm hother
      exact hkept m other hm (getElem?_concat_eq_some.2 (.inl hother))
    | inr hlast =>
      obtain ⟨rfl, rfl⟩ := hlast
      rw [List.take_left] at hdid
      exact .inl ⟨rfl, hdid⟩
  · intro h
    cases h with
    | inl h =>
      obtain ⟨rfl, hdid⟩ := h
      refine ⟨⟨operation, List.getElem?_concat_length, by rwa [List.take_left]⟩, ?_⟩
      intro m other hm hother
      have hlt := (List.getElem?_eq_some_iff.1 hother).1
      rw [List.length_append, List.length_singleton] at hlt
      omega
    | inr h =>
      obtain ⟨hstands, hnot⟩ := h
      have hbefore := hstands.lt_length
      obtain ⟨⟨done, hn, hdid⟩, hkept⟩ := hstands
      refine ⟨⟨done, getElem?_concat_eq_some.2 (.inl hn), ?_⟩, ?_⟩
      · rwa [List.take_append_of_le_length (Nat.le_of_lt hbefore)]
      · intro m other hm hother
        cases getElem?_concat_eq_some.1 hother with
        | inl hother => exact hkept m other hm hother
        | inr hlast => exact hlast.2 ▸ hnot

theorem exists_stands_concat : (∃ n, Stands did (history ++ [operation]) cell n) ↔
    did (after history) operation ∨ (∃ n, Stands did history cell n) ∧
      ¬ operation.Forgets cell := by
  simp only [stands_concat, exists_or, exists_eq_left, exists_and_right]

/-- A cell that is activated now has its latest live activation now. -/
theorem latestAt_concat_of_activates (hnow : operation.Activates tag cell (after history)) :
    LatestAt (history ++ [operation]) tag cell n ↔ n = history.length := by
  have hlive : LiveAt (history ++ [operation]) tag cell history.length :=
    stands_concat.2 (.inl ⟨rfl, hnow⟩)
  have hle : ∀ m, LiveAt (history ++ [operation]) tag cell m → m ≤ history.length := by
    intro m hm
    have hlt := hm.lt_length
    rw [List.length_append, List.length_singleton] at hlt
    omega
  constructor
  · intro h
    exact Nat.le_antisymm (hle n h.1) (h.2 _ hlive)
  · intro h
    subst h
    exact ⟨hlive, hle⟩

/-- Any other cell that is not forgotten has it when it had it. -/
theorem latestAt_concat_of_not (hnow : ¬ operation.Activates tag cell (after history))
    (hnot : ¬ operation.Forgets cell) :
    LatestAt (history ++ [operation]) tag cell n ↔ LatestAt history tag cell n := by
  have hsame : ∀ m, LiveAt (history ++ [operation]) tag cell m ↔ LiveAt history tag cell m := by
    intro m
    rw [LiveAt, stands_concat, or_iff_right fun h => hnow h.2, and_iff_left hnot]
    rfl
  simp only [LatestAt, hsame]

theorem exists_latestAt : (∃ n, LatestAt history tag cell n) ↔ Live history tag cell := by
  constructor
  · intro h
    obtain ⟨n, hn, -⟩ := h
    exact ⟨n, hn⟩
  · induction history using List.reverseRecOn with
    | nil =>
      intro h
      obtain ⟨n, hn⟩ := h
      exact absurd hn not_stands_nil
    | append_singleton history operation ih =>
      intro h
      by_cases hnow : operation.Activates tag cell (after history)
      · exact ⟨history.length, (latestAt_concat_of_activates hnow).2 rfl⟩
      · obtain ⟨hlive, hnot⟩ := (exists_stands_concat.1 h).resolve_left hnow
        obtain ⟨n, hn⟩ := ih hlive
        exact ⟨n, (latestAt_concat_of_not hnow hnot).2 hn⟩

end

/-! ## 3. What an operation does to a registry -/

section

variable {l m : Links} {declared : Declarations} {operation : Operation} {tag t : Tag}
  {cell c d : CellId}

theorem activates_addLinks : (Operation.addLinks declared).Activates t cell l ↔
    (∃ c, c ∈ declared.getD t ∅) ∧ (l.registerAll declared).Sole t cell := by
  rw [Sole, hasCurrent_eq_false, stack_registerAll, ← definers_addLinks, ← hasCurrent_eq_false]
  rfl

theorem Operation.Activates.eq (hc : operation.Activates tag c l)
    (hd : operation.Activates tag d l) : c = d := by
  cases operation with
  | addLink added cell makeCurrent => exact hc.2.2.trans hd.2.2.symm
  | addLinks declared => exact (hd.2.2 c).1 ((hc.2.2 c).2 rfl)
  | removeLinks cell => exact hc.elim
  | clear => exact hc.elim

theorem Operation.Activates.not_forgets (hc : operation.Activates tag c l) (d : CellId) :
    ¬ operation.Forgets d := by
  intro hforgets
  cases operation with
  | addLink | addLinks => exact hforgets
  | removeLinks | clear => exact hc

/-- **The definers of a tag after an operation.** -/
theorem mem_definers_perform : c ∈ (l.perform operation).definers tag ↔
    operation.Registers tag c l ∨ c ∈ l.definers tag ∧ ¬ operation.Forgets c := by
  cases operation with
  | addLink added cell makeCurrent =>
    exact mem_definers_addLink.trans (or_congr_right (and_iff_left fun h => h).symm)
  | addLinks declared =>
    exact mem_definers_addLinks.trans (or_congr_right (and_iff_left fun h => h).symm)
  | removeLinks cell =>
    refine mem_definers_removeLinks.trans
      ((and_congr_right fun _ => not_congr eq_comm).trans (or_iff_right ?_).symm)
    exact fun h => h
  | clear => simp [perform, Operation.Registers, Operation.Forgets]

/-- **The cell that is activated comes on top.** -/
theorem stack_perform_of_activates (hcell : operation.Activates tag cell l) :
    (l.perform operation).stack tag = cell :: (l.stack tag).filter fun c => c ≠ cell := by
  cases operation with
  | addLink added c makeCurrent =>
    obtain ⟨rfl, rfl, rfl⟩ := hcell
    exact (stack_addLink_true l tag tag cell).trans (if_pos rfl)
  | addLinks declared =>
    classical
    obtain ⟨hregisters, hsole⟩ := activates_addLinks.1 hcell
    have hpromoted : (l.addLinks declared).stack tag = [cell] := by
      rw [stack_addLinks, if_pos hregisters, stack_promote_of_sole hsole]
    -- Nobody was current, so there is nothing below the cell.
    rw [hasCurrent_eq_false.1 hcell.2.1]
    exact hpromoted
  | removeLinks c => exact hcell.elim
  | clear => exact hcell.elim

/-- Registering without activating leaves the stack as it is. -/
theorem stack_addLinks_of_not (hnone : ∀ cell, ¬ (Operation.addLinks declared).Activates t cell l) :
    (l.addLinks declared).stack t = l.stack t := by
  classical
  rw [stack_addLinks]
  split
  · rename_i hregisters
    have hnot : ∀ cell, ¬ (l.registerAll declared).Sole t cell := by
      intro cell hsole
      exact hnone cell (activates_addLinks.2 ⟨hregisters, hsole⟩)
    rw [promote_of_not_sole hnot, stack_registerAll]
  · rfl

theorem stack_addLink_of_not {makeCurrent : Bool}
    (hnone : ∀ c, ¬ (Operation.addLink tag cell makeCurrent).Activates t c l) :
    (l.addLink tag cell makeCurrent).stack t = l.stack t := by
  rw [stack_addLink, if_neg]
  rintro ⟨hcurrent, ht⟩
  exact hnone cell ⟨hcurrent, ht.symm, rfl⟩

/-- **If no cell is activated**, the stack loses the cells that are forgotten, and
the others stay in order. -/
theorem stack_perform_of_not (h : l.Backed) (hnone : ∀ cell, ¬ operation.Activates tag cell l) :
    ((l.perform operation).stack tag).Sublist (l.stack tag) ∧
      ∀ c, c ∈ (l.perform operation).stack tag ↔ c ∈ l.stack tag ∧ ¬ operation.Forgets c := by
  cases operation with
  | addLink added cell makeCurrent =>
    rw [perform, stack_addLink_of_not hnone]
    exact ⟨List.Sublist.refl _, fun c => (and_iff_left fun h => h).symm⟩
  | addLinks declared =>
    rw [perform, stack_addLinks_of_not hnone]
    exact ⟨List.Sublist.refl _, fun c => (and_iff_left fun h => h).symm⟩
  | removeLinks cell =>
    rw [perform, h.stack_removeLinks]
    refine ⟨List.filter_sublist, fun c => ?_⟩
    rw [List.mem_filter, decide_eq_true_eq, ne_comm, Operation.Forgets]
  | clear => simp [perform, Operation.Forgets]

/-- **Whatever an operation does** comes down to registering a cell, making a definer current and
forgetting a cell, or to starting anew. -/
theorem perform_induction {motive : Links → Prop}
    (register : ∀ m tag cell, motive m → motive (m.register tag cell))
    (activate : ∀ m tag cell, cell ∈ m.definers tag → motive m → motive (m.activate tag cell))
    (removeLinks : ∀ m cell, motive m → motive (m.removeLinks cell)) (empty : motive ∅)
    (h : motive l) (operation : Operation) : motive (l.perform operation) := by
  cases operation with
  | addLink tag cell makeCurrent => exact addLink_induction register activate h tag cell makeCurrent
  | addLinks declared => exact addLinks_induction register activate h declared
  | removeLinks cell => exact removeLinks l cell h
  | clear => exact empty

theorem Backed.perform (h : l.Backed) (operation : Operation) : (l.perform operation).Backed :=
  perform_induction (fun _ tag cell hm => hm.register tag cell)
    (fun _ _ _ hcell hm => hm.activate hcell)
    (fun _ cell hm => hm.removeLinks cell) .empty h operation

end

/-! ## 4. After a history -/

section

variable {history : List Operation} {operation : Operation} {tag : Tag} {cell c d : CellId}
  {n : Nat}

theorem backed_after (history : List Operation) : (after history).Backed :=
  List.foldlRecOn history perform .empty fun _ hl operation _ => hl.perform operation

/-- At one moment one cell is activated for a tag. -/
theorem LiveAt.eq (hc : LiveAt history tag c n) (hd : LiveAt history tag d n) : c = d := by
  obtain ⟨⟨operation, hn, hactivates⟩, -⟩ := hc
  obtain ⟨⟨other, hother, hactivates'⟩, -⟩ := hd
  rw [hn, Option.some_inj] at hother
  subst hother
  exact hactivates.eq hactivates'

/-- **The definers of a tag** are the cells that were registered for it and not forgotten since. -/
theorem mem_definers_after :
    c ∈ (after history).definers tag ↔ ∃ n, RegisteredAt history tag c n := by
  induction history using List.reverseRecOn with
  | nil => simp [RegisteredAt, not_stands_nil]
  | append_singleton history operation ih =>
    rw [after_concat, mem_definers_perform, ih]
    exact exists_stands_concat.symm

/-- **On the stack of a tag** are the cells with a live activation for it. -/
theorem mem_stack_after : c ∈ (after history).stack tag ↔ Live history tag c := by
  induction history using List.reverseRecOn with
  | nil => simp [Live, LiveAt, not_stands_nil]
  | append_singleton history operation ih =>
    rw [Live, after_concat]
    refine Iff.trans ?_ exists_stands_concat.symm
    by_cases hactivates : ∃ cell, operation.Activates tag cell (after history)
    · obtain ⟨cell, hcell⟩ := hactivates
      rw [stack_perform_of_activates hcell, List.mem_cons, List.mem_filter, decide_eq_true_eq, ih,
        and_iff_left (hcell.not_forgets c)]
      by_cases hc : c = cell
      · subst hc
        simp [hcell]
      · have hnot : ¬ operation.Activates tag c (after history) := fun h => hc (h.eq hcell)
        rw [or_iff_right hc, or_iff_right hnot, and_iff_left hc]
        rfl
    · have hnone := not_exists.1 hactivates
      rw [(stack_perform_of_not (backed_after history) hnone).2 c, ih, or_iff_right (hnone c)]
      rfl

/-- The latest live activation of the first cell is after that of the second one. -/
def MoreRecent (history : List Operation) (tag : Tag) (c d : CellId) : Prop :=
  ∀ n m, LatestAt history tag c n → LatestAt history tag d m → m < n

theorem MoreRecent.concat (h : MoreRecent history tag c d)
    (hc : ¬ operation.Activates tag c (after history))
    (hd : ¬ operation.Activates tag d (after history)) (hkeptc : ¬ operation.Forgets c)
    (hkeptd : ¬ operation.Forgets d) : MoreRecent (history ++ [operation]) tag c d := by
  intro n m hn hm
  exact h n m ((latestAt_concat_of_not hc hkeptc).1 hn) ((latestAt_concat_of_not hd hkeptd).1 hm)

/-- A cell that is activated now is more recent than all others. -/
theorem moreRecent_of_activates (hc : operation.Activates tag c (after history)) (hd : c ≠ d) :
    MoreRecent (history ++ [operation]) tag c d := by
  intro n m hn hm
  have hnot : ¬ operation.Activates tag d (after history) := fun h => hd (hc.eq h)
  have hbefore := (latestAt_concat_of_not hnot (hc.not_forgets d)).1 hm
  rw [(latestAt_concat_of_activates hc).1 hn]
  exact hbefore.1.lt_length

/-- **The stack is in the order of the latest live activations**, the most recent one first. -/
theorem pairwise_stack_after : ((after history).stack tag).Pairwise (MoreRecent history tag) := by
  induction history using List.reverseRecOn with
  | nil => simp
  | append_singleton history operation ih =>
    rw [after_concat]
    by_cases hactivates : ∃ cell, operation.Activates tag cell (after history)
    · obtain ⟨cell, hcell⟩ := hactivates
      rw [stack_perform_of_activates hcell, List.pairwise_cons]
      have hother : ∀ c ∈ ((after history).stack tag).filter (fun c => c ≠ cell), cell ≠ c := by
        intro c hc
        rw [List.mem_filter, decide_eq_true_eq] at hc
        exact hc.2.symm
      refine ⟨fun c hc => moreRecent_of_activates hcell (hother c hc), ?_⟩
      refine (ih.sublist List.filter_sublist).imp_of_mem ?_
      intro c d hc hd hrecent
      exact hrecent.concat (fun h => hother c hc (hcell.eq h)) (fun h => hother d hd (hcell.eq h))
        (hcell.not_forgets c) (hcell.not_forgets d)
    · have hnone := not_exists.1 hactivates
      obtain ⟨hsublist, hmem⟩ := stack_perform_of_not (backed_after history) hnone
      refine (ih.sublist hsublist).imp_of_mem ?_
      intro c d hc hd hrecent
      exact hrecent.concat (hnone c) (hnone d) ((hmem c).1 hc).2 ((hmem d).1 hd).2

theorem nodup_stack_after : ((after history).stack tag).Nodup := by
  refine pairwise_stack_after.imp_of_mem ?_
  intro c d hc _ hrecent heq
  subst heq
  obtain ⟨n, hn⟩ := exists_latestAt.2 (mem_stack_after.1 hc)
  exact Nat.lt_irrefl n (hrecent n n hn hn)

end

/-! ## 5. Resolving -/

section

variable {history : List Operation} {tag : Tag} {c requester : CellId}

/-- The first on the stack of those that satisfy `p` has the latest live activation of them all. -/
theorem find?_stack_after {p : CellId → Bool} :
    ((after history).stack tag).find? p = some c ↔
      Foremost history tag (fun d => p d = true) c := by
  have hfirst : ∀ {c}, ((after history).stack tag).find? p = some c →
      Foremost history tag (fun d => p d = true) c := by
    intro c h
    obtain ⟨hp, above, below, hstack, habove⟩ := List.find?_eq_some_iff_append.1 h
    have hpairwise : ((after history).stack tag).Pairwise (MoreRecent history tag) :=
      pairwise_stack_after
    have hlisted : c ∈ (after history).stack tag := by simp [hstack]
    obtain ⟨n, hn⟩ := exists_latestAt.2 (mem_stack_after.1 hlisted)
    refine ⟨hp, n, hn.1, ?_⟩
    intro d m hd hm
    have hmem : d ∈ (after history).stack tag := mem_stack_after.2 ⟨m, hm⟩
    rw [hstack, List.mem_append, List.mem_cons] at hmem
    cases hmem with
    | inl hmem =>
      have hnot := habove d hmem
      rw [hd] at hnot
      cases hnot
    | inr hmem =>
      cases hmem with
      | inl hsame => exact hn.2 m (hsame ▸ hm)
      | inr hmem =>
        rw [hstack] at hpairwise
        have hrecent := List.rel_of_pairwise_cons (List.pairwise_append.1 hpairwise).2.1 hmem
        obtain ⟨k, hk⟩ := exists_latestAt.2 ⟨m, hm⟩
        exact Nat.le_trans (hk.2 m hm) (Nat.le_of_lt (hrecent n k hn hk))
  constructor
  · exact hfirst
  · intro h
    obtain ⟨hp, n, hn, hlatest⟩ := h
    have hfound : (((after history).stack tag).find? p).isSome = true :=
      List.find?_isSome.2 ⟨c, mem_stack_after.2 ⟨n, hn⟩, hp⟩
    obtain ⟨d, hd⟩ := Option.isSome_iff_exists.1 hfound
    obtain ⟨hpd, m, hm, hlatest'⟩ := hfirst hd
    have hsame : m = n := Nat.le_antisymm (hlatest d m hpd hm) (hlatest' c n hp hn)
    rw [hd, hn.eq (hsame ▸ hm)]

theorem stack_after_eq_nil : (after history).stack tag = [] ↔ ∀ c, ¬ Live history tag c := by
  simp only [List.eq_nil_iff_forall_not_mem, mem_stack_after]

/-- **Resolution is decided by activation history**, at every moment in the life of a registry. -/
theorem resolution_of_history (history : List Operation) (tag : Tag) :
    (∀ c, c ∈ (after history).definers tag ↔ ∃ n, RegisteredAt history tag c n) ∧
    ((after history).hasCurrent tag = false ↔ ∀ c, ¬ Live history tag c) ∧
    (∀ c, c ∈ (after history).stack tag ↔ Live history tag c) ∧
    ((after history).stack tag).Nodup ∧
    ((after history).stack tag).Pairwise (MoreRecent history tag) ∧
    (∀ c, (after history).current tag = .ok c ↔ Foremost history tag (fun _ => True) c) ∧
    ((after history).current tag = .error (.undefinedTag tag) ↔ ∀ c, ¬ Live history tag c) ∧
    ∀ requester,
      (∀ c, (after history).external tag requester = .ok c ↔
        Foremost history tag (fun d => d ≠ requester) c) ∧
      ((after history).external tag requester = .error (.undefinedTag tag) ↔
        ∀ c, ¬ Live history tag c) ∧
      ((after history).external tag requester = .error (.ambiguousTag tag requester) ↔
        ∀ c, Live history tag c ↔ c = requester) ∧
      ((after history).hasExternal tag requester = true ↔
        ∃ c, (after history).external tag requester = .ok c) := by
  have hcurrent : ∀ c, (after history).current tag = .ok c ↔
      Foremost history tag (fun _ => True) c := by
    intro c
    rw [current_eq_ok, find?_stack_after]
    simp only
  have hexternal : ∀ requester c, (after history).external tag requester = .ok c ↔
      Foremost history tag (fun d => d ≠ requester) c := by
    intro requester c
    rw [external_eq_ok, find?_stack_after]
    simp only [decide_eq_true_eq]
  have hambiguous : ∀ requester, (after history).external tag requester =
      .error (.ambiguousTag tag requester) ↔ ∀ c, Live history tag c ↔ c = requester := by
    intro requester
    rw [external_eq_ambiguous]
    simp only [mem_stack_after]
  refine ⟨fun c => mem_definers_after, ?_, fun c => mem_stack_after, nodup_stack_after,
    pairwise_stack_after, hcurrent, ?_, ?_⟩
  · rw [hasCurrent_eq_false, stack_after_eq_nil]
  · rw [current_eq_undefined, stack_after_eq_nil]
  · intro requester
    refine ⟨hexternal requester, ?_, hambiguous requester, hasExternal_eq_true⟩
    rw [external_eq_undefined, stack_after_eq_nil]

/-- While cell 1 is current, a batch that declares cell 2 activates nobody. Once everything that
cell 1 defines is forgotten, the same batch activates cell 2. -/
example :
    let tag : Tag := ⟨"t"⟩
    let declared : Declarations :=
      (∅ : Declarations).insert tag (ExtTreeSet.ofList [(⟨2⟩ : CellId)])
    let history : List Operation := [.addLink tag ⟨1⟩ true, .addLinks declared]
    (after history).stack tag = [⟨1⟩] ∧
      (after (history ++ [.removeLinks ⟨1⟩, .addLinks declared])).stack tag = [⟨2⟩] := by
      decide +kernel

end

end Notebook.Links
