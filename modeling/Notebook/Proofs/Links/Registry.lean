import Notebook.Links.Basic

/-!
# What is recorded for a cell

Registering adds the tags it is given and forgetting takes all tags of a cell away, whether or not
anything is made current on the way. So the tags of a cell after an operation are said exactly,
one operation at a time, and

> **a tag that was made current last resolves to its cell**, for every other cell too.

A cell is made current only after it was recorded, so whoever is current for a tag
defines it. This is why it is enough to look through the tags of a cell when everything
that it defines is forgotten.
-/

set_option autoImplicit false

namespace Notebook.Links

open Std

variable {l : Links} {tag t : Tag} {cell c : CellId}

/-! ## 1. Tags of a cell -/

@[simp] theorem tagsOf_empty (c : CellId) : (∅ : Links).tagsOf c = ∅ :=
  Rows.row_empty c

/-- Whatever has tags has one. -/
theorem exists_mem_tagsOf (h : (l.tagsOf? c).isSome = true) : ∃ tag, tag ∈ l.tagsOf c := by
  obtain ⟨tags, htags⟩ := Option.isSome_iff_exists.1 h
  exact Rows.exists_mem_row htags

theorem mem_tagsOf_register :
    t ∈ (l.register tag cell).tagsOf c ↔ t = tag ∧ c = cell ∨ t ∈ l.tagsOf c := by
  rw [mem_tagsOf, mem_definers_register, mem_tagsOf]

@[simp] theorem tagsOf_activate (l : Links) (tag : Tag) (cell c : CellId) :
    (l.activate tag cell).tagsOf c = l.tagsOf c := rfl

@[simp] theorem tagsOf_promote (l : Links) (tag : Tag) (c : CellId) :
    (l.promote tag).tagsOf c = l.tagsOf c := by
  rw [promote]
  split
  · rfl
  · split <;> rfl

theorem mem_tagsOf_addLink {makeCurrent : Bool} :
    t ∈ (l.addLink tag cell makeCurrent).tagsOf c ↔ t = tag ∧ c = cell ∨ t ∈ l.tagsOf c := by
  rw [addLink]
  split
  · rw [tagsOf_activate, mem_tagsOf_register]
  · rw [mem_tagsOf_register]

theorem mem_definers_addLink {makeCurrent : Bool} :
    c ∈ (l.addLink tag cell makeCurrent).definers t ↔ t = tag ∧ c = cell ∨ c ∈ l.definers t := by
  rw [← mem_tagsOf, mem_tagsOf_addLink, mem_tagsOf]

theorem mem_tagsOf_removeLinks : t ∈ (l.removeLinks cell).tagsOf c ↔ t ∈ l.tagsOf c ∧ c ≠ cell := by
  rw [mem_tagsOf, mem_definers_removeLinks, mem_tagsOf]

theorem removeLinks_empty (cell : CellId) : (∅ : Links).removeLinks cell = ∅ := by
  have hdefinitions : (∅ : PairSet Tag CellId).eraseRight cell = ∅ := by
    apply PairSet.ext
    intro tag c
    rw [PairSet.mem_eraseRight, and_iff_left_of_imp]
    exact fun h => absurd h (PairSet.not_mem_empty _)
  rw [removeLinks, tagsOf_empty]
  show (⟨PairSet.eraseRight ∅ cell, ∅⟩ : Links) = ∅
  rw [hdefinitions]
  rfl

theorem mem_tagsOf_foldl_removeLinks {cells : List CellId} :
    t ∈ (cells.foldl removeLinks l).tagsOf c ↔ t ∈ l.tagsOf c ∧ c ∉ cells := by
  induction cells generalizing l with
  | nil => simp
  | cons cell cells ih =>
    rw [List.foldl_cons, ih, mem_tagsOf_removeLinks, List.mem_cons, not_or, and_assoc]

theorem mem_tagsOf_foldl_addLink {tags : List Tag} {makeCurrent : Bool} :
    t ∈ (tags.foldl (fun links tag => links.addLink tag cell makeCurrent) l).tagsOf c ↔
      t ∈ tags ∧ c = cell ∨ t ∈ l.tagsOf c := by
  induction tags generalizing l with
  | nil => simp
  | cons tag tags ih =>
    rw [List.foldl_cons, ih, mem_tagsOf_addLink, List.mem_cons, or_and_right,
      or_assoc, or_left_comm]

theorem mem_tagsOf_foldl_register {cells : List CellId} :
    t ∈ (cells.foldl (fun m cell => m.register tag cell) l).tagsOf c ↔
      t = tag ∧ c ∈ cells ∨ t ∈ l.tagsOf c := by
  induction cells generalizing l with
  | nil => simp
  | cons cell cells ih =>
    rw [List.foldl_cons, ih, mem_tagsOf_register, List.mem_cons, and_or_left,
      or_assoc, or_left_comm]

theorem mem_tagsOf_foldl_entries {entries : List (Tag × ExtTreeSet CellId)} :
    t ∈ (entries.foldl (fun m entry =>
        entry.2.toList.foldl (fun m cell => m.register entry.1 cell) m) l).tagsOf c ↔
      (∃ entry ∈ entries, t = entry.1 ∧ c ∈ entry.2) ∨ t ∈ l.tagsOf c := by
  induction entries generalizing l with
  | nil => simp
  | cons entry entries ih =>
    rw [List.foldl_cons, ih, mem_tagsOf_foldl_register, ExtTreeSet.mem_toList]
    simp only [List.mem_cons, exists_eq_or_imp, or_assoc]
    rw [or_left_comm]

theorem mem_getD_iff {declared : Declarations} :
    c ∈ declared.getD t ∅ ↔ ∃ entry ∈ declared.toList, t = entry.1 ∧ c ∈ entry.2 := by
  simp only [Prod.exists, ExtTreeMap.mem_toList_iff_getElem?_eq_some,
    ExtTreeMap.getD_eq_getD_getElem?]
  cases hcells : declared[t]? with
  | none =>
    refine iff_of_false (by simp) ?_
    rintro ⟨_, cells, hsome, rfl, -⟩
    rw [hcells] at hsome
    cases hsome
  | some cells =>
    constructor
    · exact fun hc => ⟨t, cells, hcells, rfl, hc⟩
    · rintro ⟨_, _, hsome, rfl, hc⟩
      rw [hcells] at hsome
      cases hsome
      exact hc

/-- Whatever is promoted, what is declared is what is added. -/
theorem mem_tagsOf_addLinks {declared : Declarations} :
    t ∈ (l.addLinks declared).tagsOf c ↔ c ∈ declared.getD t ∅ ∨ t ∈ l.tagsOf c := by
  have hpromote : ∀ (entries : List (Tag × ExtTreeSet CellId)) (l : Links),
      (entries.foldl (fun m entry => if entry.2.isEmpty then m else m.promote entry.1) l).tagsOf c =
        l.tagsOf c := by
    -- A promotion makes a cell current that is recorded already.
    intro entries l
    refine List.foldlRecOn (motive := fun m : Links => m.tagsOf c = l.tagsOf c) entries _ rfl ?_
    intro m hm entry _
    split
    · exact hm
    · rw [tagsOf_promote, hm]
  rw [addLinks, hpromote, mem_tagsOf_foldl_entries, mem_getD_iff]

/-! ## 2. The current definer -/

theorem stack_addLink (l : Links) (tag t : Tag) (cell : CellId) (makeCurrent : Bool) :
    (l.addLink tag cell makeCurrent).stack t =
      if makeCurrent = true ∧ tag = t then cell :: (l.stack tag).filter (fun c => c ≠ cell)
        else l.stack t := by
  cases makeCurrent with
  | false => rfl
  | true => simp [addLink, stack_activate]

theorem stack_addLink_true (l : Links) (tag t : Tag) (cell : CellId) :
    (l.addLink tag cell true).stack t =
      if tag = t then cell :: (l.stack tag).filter (fun c => c ≠ cell) else l.stack t := by
  simp [stack_addLink]

/-- Whatever the cell makes current is on top of its stack, and all that was there before comes
after it. -/
theorem stack_foldl_addLink {tags : List Tag} (htag : t ∈ tags) (l : Links) (cell : CellId) :
    (tags.foldl (fun links tag => links.addLink tag cell true) l).stack t =
      cell :: (l.stack t).filter fun c => c ≠ cell := by
  induction tags generalizing l with
  | nil => cases htag
  | cons tag tags ih =>
    rw [List.foldl_cons]
    -- The tag may occur again, and then the cell is moved to the top once more.
    by_cases hlater : t ∈ tags
    · rw [ih hlater, stack_addLink_true]
      split
      · rename_i h
        subst h
        simp
      · rfl
    · obtain rfl : t = tag := (List.mem_cons.1 htag).resolve_right hlater
      have hrest : ∀ l : Links,
          (tags.foldl (fun links tag => links.addLink tag cell true) l).stack t = l.stack t := by
        intro l
        refine List.foldlRecOn (motive := fun m : Links => m.stack t = l.stack t) tags _ rfl ?_
        intro m hm other hother
        have hne : other ≠ t := fun h => hlater (h ▸ hother)
        rw [stack_addLink_true, if_neg hne, hm]
      rw [hrest, stack_addLink_true, if_pos rfl]

theorem current_of_stack {rest : List CellId} (h : l.stack t = cell :: rest) :
    l.current t = .ok cell := by
  rw [current, h]
  rfl

theorem hasCurrent_eq_false : l.hasCurrent t = false ↔ l.stack t = [] := by
  simp [hasCurrent]

theorem current_eq_ok : l.current t = .ok c ↔ (l.stack t).find? (fun _ => true) = some c := by
  rw [current]
  cases l.stack t <;> simp

theorem current_eq_undefined : l.current t = .error (.undefinedTag t) ↔ l.stack t = [] := by
  rw [current]
  cases l.stack t <;> simp

/-- A reference goes past nobody but the cell that asks. -/
theorem external_of_stack {rest : List CellId} (h : l.stack t = cell :: rest) {requester : CellId}
    (hne : cell ≠ requester) : l.external t requester = .ok cell := by
  rw [external, h]
  simp [hne]

/-- **What a reference can come to**: nobody is current, or only the cell that asks is, or the
first other cell on the stack is found. -/
theorem external_cases (l : Links) (t : Tag) (requester : CellId) :
    (l.stack t = [] ∧ l.external t requester = .error (.undefinedTag t)) ∨
    (l.stack t ≠ [] ∧ (l.stack t).find? (fun c => c ≠ requester) = none ∧
      l.external t requester = .error (.ambiguousTag t requester)) ∨
    ∃ c, (l.stack t).find? (fun c => c ≠ requester) = some c ∧ l.external t requester = .ok c := by
  rw [external]
  cases hstack : l.stack t with
  | nil => exact .inl ⟨rfl, rfl⟩
  | cons top rest =>
    cases hfound : (top :: rest).find? fun c => c ≠ requester with
    | none =>
      refine .inr (.inl ⟨List.cons_ne_nil top rest, rfl, ?_⟩)
      dsimp only
      rw [hfound]
    | some c =>
      refine .inr (.inr ⟨c, rfl, ?_⟩)
      dsimp only
      rw [hfound]

theorem external_eq_ok {requester : CellId} :
    l.external t requester = .ok c ↔ (l.stack t).find? (fun d => d ≠ requester) = some c := by
  obtain ⟨hstack, hreply⟩ | ⟨-, hfound, hreply⟩ | ⟨d, hfound, hreply⟩ :=
    l.external_cases t requester
  · simp [hstack, hreply]
  · rw [hreply, hfound]
    simp
  · rw [hreply, hfound]
    simp

theorem external_eq_undefined {requester : CellId} :
    l.external t requester = .error (.undefinedTag t) ↔ l.stack t = [] := by
  obtain ⟨hstack, hreply⟩ | ⟨hstack, -, hreply⟩ | ⟨d, hfound, hreply⟩ :=
    l.external_cases t requester
  · simp [hstack, hreply]
  · simp [hstack, hreply]
  · have hstack : l.stack t ≠ [] := List.ne_nil_of_mem (List.mem_of_find?_eq_some hfound)
    simp [hstack, hreply]

/-- A tag is ambiguous for a cell that is alone on its stack. -/
theorem external_eq_ambiguous {requester : CellId} :
    l.external t requester = .error (.ambiguousTag t requester) ↔
      ∀ c, c ∈ l.stack t ↔ c = requester := by
  obtain ⟨hstack, hreply⟩ | ⟨hstack, hfound, hreply⟩ | ⟨d, hfound, hreply⟩ :=
    l.external_cases t requester
  · simp [hstack, hreply]
  · have hall : ∀ c ∈ l.stack t, c = requester := by simpa using hfound
    obtain ⟨d, hd⟩ := List.exists_mem_of_ne_nil _ hstack
    refine iff_of_true hreply fun c => ⟨hall c, ?_⟩
    intro hc
    rw [hc, ← hall d hd]
    exact hd
  · have hother : d ≠ requester := by simpa using List.find?_some hfound
    refine iff_of_false (by simp [hreply]) fun h => ?_
    exact hother ((h d).1 (List.mem_of_find?_eq_some hfound))

theorem hasExternal_eq_true {requester : CellId} :
    l.hasExternal t requester = true ↔ ∃ c, l.external t requester = .ok c := by
  simp only [external_eq_ok]
  rw [← Option.isSome_iff_exists, List.find?_isSome, hasExternal, List.any_eq_true]

/-! ## 3. Current definers are definers -/

@[simp] theorem stack_empty (t : Tag) : (∅ : Links).stack t = [] := by
  show (∅ : ExtTreeMap Tag (List CellId)).getD t [] = []
  simp

@[simp] theorem definers_empty (t : Tag) : (∅ : Links).definers t = ∅ :=
  Rows.row_empty t

@[simp] theorem definers_promote (l : Links) (tag t : Tag) :
    (l.promote tag).definers t = l.definers t := by
  rw [promote]
  split
  · rfl
  · split <;> rfl

section

variable {motive : Links → Prop} (register : ∀ m tag cell, motive m → motive (m.register tag cell))
  (activate : ∀ m tag cell, cell ∈ m.definers tag → motive m → motive (m.activate tag cell))

include register activate

/-- **What adding a link comes down to**: a definer is registered and, if asked to, made current. -/
theorem addLink_induction (h : motive l) (tag : Tag) (cell : CellId) (makeCurrent : Bool) :
    motive (l.addLink tag cell makeCurrent) := by
  rw [addLink]
  split
  · exact activate _ tag cell (mem_definers_register.2 (.inl ⟨rfl, rfl⟩)) (register l tag cell h)
  · exact register l tag cell h

/-- A batch comes down to the same, since whoever is promoted at its end is a definer. -/
theorem addLinks_induction (h : motive l) (declared : Declarations) :
    motive (l.addLinks declared) := by
  have hpromote : ∀ m tag, motive m → motive (m.promote tag) := by
    intro m tag hm
    rw [promote]
    split
    · exact hm
    · split
      · rename_i cell honly
        refine activate m tag cell ?_ hm
        rw [← ExtTreeSet.mem_toList, honly]
        exact List.mem_singleton_self cell
      · exact hm
  have hregistered : motive (declared.toList.foldl
      (fun m entry => entry.2.toList.foldl (fun m cell => m.register entry.1 cell) m) l) :=
    List.foldlRecOn _ _ h fun m hm entry _ => List.foldlRecOn _ _ hm fun m hm cell _ =>
      register m entry.1 cell hm
  refine List.foldlRecOn _ _ hregistered fun m hm entry _ => ?_
  split
  · exact hm
  · exact hpromote m entry.1 hm

end

/-- Whoever is current for a tag defines it. -/
def Backed (l : Links) : Prop :=
  ∀ t c, c ∈ l.stack t → c ∈ l.definers t

namespace Backed

theorem empty : (∅ : Links).Backed := by
  intro t c hc
  simp at hc

theorem register (h : l.Backed) (tag : Tag) (cell : CellId) : (l.register tag cell).Backed := by
  intro t c hc
  exact mem_definers_register.2 (.inr (h t c hc))

theorem activate (h : l.Backed) (hcell : cell ∈ l.definers tag) : (l.activate tag cell).Backed := by
  intro t c hc
  rw [stack_activate] at hc
  rw [definers_activate]
  by_cases ht : tag = t
  · subst ht
    rw [if_pos rfl, List.mem_cons] at hc
    cases hc with
    | inl hc => rwa [hc]
    | inr hc => exact h tag c (List.mem_filter.1 hc).1
  · rw [if_neg ht] at hc
    exact h t c hc

theorem addLink (h : l.Backed) (tag : Tag) (cell : CellId) (makeCurrent : Bool) :
    (l.addLink tag cell makeCurrent).Backed :=
  addLink_induction (fun _ tag cell hm => hm.register tag cell)
    (fun _ _ _ hcell hm => hm.activate hcell) h tag cell makeCurrent

theorem addLinks (h : l.Backed) (declared : Declarations) : (l.addLinks declared).Backed :=
  addLinks_induction (fun _ tag cell hm => hm.register tag cell)
    (fun _ _ _ hcell hm => hm.activate hcell) h declared

theorem stack_removeLinks (h : l.Backed) (cell : CellId) (t : Tag) :
    (l.removeLinks cell).stack t = (l.stack t).filter fun c => c ≠ cell := by
  rw [Links.stack_removeLinks]
  split
  · rfl
  · rename_i hnot
    -- The cell does not define the tag, so it is not on its stack.
    have hall : ∀ c ∈ l.stack t, decide (c ≠ cell) = true := by
      intro c hc
      rw [decide_eq_true_eq]
      intro hcell
      exact hnot (mem_tagsOf.2 (hcell ▸ h t c hc))
    exact (List.filter_eq_self.2 hall).symm

theorem removeLinks (h : l.Backed) (cell : CellId) : (l.removeLinks cell).Backed := by
  intro t c hc
  rw [h.stack_removeLinks, List.mem_filter, decide_eq_true_eq] at hc
  exact mem_definers_removeLinks.2 ⟨h t c hc.1, hc.2⟩

theorem stack_foldl_removeLinks (h : l.Backed) (cells : List CellId) (t : Tag) :
    (cells.foldl Links.removeLinks l).stack t = (l.stack t).filter fun c => c ∉ cells := by
  induction cells generalizing l with
  | nil => exact (List.filter_eq_self.2 fun c _ => decide_eq_true List.not_mem_nil).symm
  | cons cell cells ih =>
    rw [List.foldl_cons, ih (h.removeLinks cell), h.stack_removeLinks, List.filter_filter]
    refine List.filter_congr fun c _ => ?_
    simp only [List.mem_cons, not_or, Bool.decide_and, Bool.and_comm]

end Backed

/-! ## 4. Promotions -/

section

variable {m : Links} {declared : Declarations}

theorem toList_eq_singleton {cells : ExtTreeSet CellId} :
    cells.toList = [cell] ↔ ∀ c, c ∈ cells ↔ c = cell := by
  constructor
  · intro h c
    rw [← ExtTreeSet.mem_toList, h, List.mem_singleton]
  · intro h
    have hmem : ∀ c, c ∈ cells.toList ↔ c = cell := by simpa using h
    have hdistinct : cells.toList.Pairwise fun a b => ¬ compare a b = .eq :=
      ExtTreeSet.distinct_toList
    cases hlist : cells.toList with
    | nil =>
      have hcell := (hmem cell).2 rfl
      rw [hlist] at hcell
      cases hcell
    | cons c rest =>
      rw [hlist] at hmem hdistinct
      have hc := (hmem c).1 (by simp)
      cases rest with
      | nil => rw [hc]
      | cons d rest =>
        have hd := (hmem d).1 (by simp)
        simp [hc, hd] at hdistinct

/-- Nobody is current for the tag, and the cell is its only definer. -/
def Sole (l : Links) (tag : Tag) (cell : CellId) : Prop :=
  l.hasCurrent tag = false ∧ ∀ c, c ∈ l.definers tag ↔ c = cell

theorem promote_of_sole (h : l.Sole tag cell) : l.promote tag = l.activate tag cell := by
  obtain ⟨hnone, honly⟩ := h
  simp [promote, hnone, toList_eq_singleton.2 honly]

theorem promote_of_not_sole (h : ∀ cell, ¬ l.Sole tag cell) : l.promote tag = l := by
  rw [promote]
  split
  · rfl
  · rename_i hnone
    split
    · rename_i cell honly
      exact absurd ⟨by simpa using hnone, toList_eq_singleton.1 honly⟩ (h cell)
    · rfl

/-- Nobody is on the stack then, so the cell is put on it and nobody is taken off. -/
theorem promote_eq_push (h : l.Sole tag cell) :
    l.promote tag = { l with activations := l.activations.insert tag (cell :: l.stack tag) } := by
  rw [promote_of_sole h, activate, hasCurrent_eq_false.1 h.1]
  rfl

theorem stack_promote_of_sole (h : l.Sole tag cell) : (l.promote tag).stack tag = [cell] := by
  rw [promote_eq_push h, stack, ExtTreeMap.getD_insert_self, hasCurrent_eq_false.1 h.1]

theorem stack_promote_of_ne (h : tag ≠ t) : (l.promote tag).stack t = l.stack t := by
  by_cases hsole : ∃ cell, l.Sole tag cell
  · obtain ⟨cell, hsole⟩ := hsole
    rw [promote_of_sole hsole, stack_activate, if_neg h]
  · rw [promote_of_not_sole (not_exists.1 hsole)]

/-- Whether somebody is promoted depends on the stack and on the definers of the tag. -/
theorem stack_promote_congr (hstack : m.stack t = l.stack t)
    (hdefiners : m.definers t = l.definers t) : (m.promote t).stack t = (l.promote t).stack t := by
  have hsame : ∀ cell, m.Sole t cell ↔ l.Sole t cell := by
    intro cell
    rw [Sole, Sole, hasCurrent_eq_false, hasCurrent_eq_false, hstack, hdefiners]
  by_cases hsole : ∃ cell, l.Sole t cell
  · obtain ⟨cell, hsole⟩ := hsole
    rw [stack_promote_of_sole hsole, stack_promote_of_sole ((hsame cell).2 hsole)]
  · have hnot := not_exists.1 hsole
    rw [promote_of_not_sole hnot, promote_of_not_sole fun cell h =>
      hnot cell ((hsame cell).1 h), hstack]

theorem promote_promote (l : Links) (tag : Tag) : (l.promote tag).promote tag = l.promote tag := by
  by_cases hsole : ∃ cell, l.Sole tag cell
  · obtain ⟨cell, hsole⟩ := hsole
    refine promote_of_not_sole ?_
    intro other hother
    have hnone := hasCurrent_eq_false.1 hother.1
    rw [stack_promote_of_sole hsole] at hnone
    cases hnone
  · have hsame := promote_of_not_sole (not_exists.1 hsole)
    rw [hsame, hsame]

/-- Of the promotions at the end of a batch those of other tags do not matter, nor does it matter
how often the tag itself is promoted. -/
theorem stack_foldl_promote (entries : List (Tag × ExtTreeSet CellId)) (l : Links) (t : Tag) :
    (entries.foldl (fun m entry => if entry.2.isEmpty then m else m.promote entry.1) l).stack t =
      if entries.any (fun entry => entry.1 = t && !entry.2.isEmpty) then (l.promote t).stack t
        else l.stack t := by
  induction entries generalizing l with
  | nil => simp
  | cons entry entries ih =>
    rw [List.foldl_cons, ih, List.any_cons]
    cases entry.2.isEmpty with
    | true => rw [Bool.not_true, Bool.and_false, Bool.false_or, if_pos rfl]
    | false =>
      rw [Bool.not_false, Bool.and_true, if_neg Bool.false_ne_true]
      by_cases ht : entry.1 = t
      · rw [decide_eq_true ht, Bool.true_or, if_pos rfl, ht, promote_promote, ite_self]
      · have hstack : (l.promote entry.1).stack t = l.stack t := stack_promote_of_ne ht
        rw [decide_eq_false ht, Bool.false_or, hstack,
          stack_promote_congr hstack (l.definers_promote entry.1 t)]

/-- The declared definers are registered, and nobody is promoted yet. -/
def registerAll (l : Links) (declared : Declarations) : Links :=
  declared.toList.foldl (fun m entry =>
    entry.2.toList.foldl (fun m cell => m.register entry.1 cell) m) l

theorem stack_registerAll (l : Links) (declared : Declarations) (t : Tag) :
    (l.registerAll declared).stack t = l.stack t := by
  refine List.foldlRecOn (motive := fun m : Links => m.stack t = l.stack t) _ _ rfl
    fun m hm entry _ => ?_
  exact List.foldlRecOn (motive := fun m : Links => m.stack t = l.stack t) _ _ hm fun m hm cell _ =>
    hm

theorem mem_definers_addLinks :
    c ∈ (l.addLinks declared).definers t ↔ c ∈ declared.getD t ∅ ∨ c ∈ l.definers t := by
  rw [← mem_tagsOf, mem_tagsOf_addLinks, mem_tagsOf]

theorem definers_addLinks (l : Links) (declared : Declarations) (t : Tag) :
    (l.addLinks declared).definers t = (l.registerAll declared).definers t := by
  rw [addLinks]
  refine List.foldlRecOn (motive := fun m : Links => m.definers t =
    (l.registerAll declared).definers t) _ _ rfl fun m hm entry _ => ?_
  split
  · exact hm
  · rw [definers_promote, hm]

theorem stack_addLinks (l : Links) (declared : Declarations) (t : Tag)
    [Decidable (∃ c, c ∈ declared.getD t ∅)] :
    (l.addLinks declared).stack t =
      if ∃ c, c ∈ declared.getD t ∅ then ((l.registerAll declared).promote t).stack t
        else l.stack t := by
  have hregisters : declared.toList.any (fun entry => entry.1 = t && !entry.2.isEmpty) = true ↔
      ∃ c, c ∈ declared.getD t ∅ := by
    simp only [mem_getD_iff, List.any_eq_true, Bool.and_eq_true, decide_eq_true_eq,
      Bool.not_eq_true',
      ExtTreeSet.isEmpty_eq_false_iff, ExtTreeSet.eq_empty_iff_forall_not_mem, Classical.not_forall,
      Classical.not_not]
    constructor
    · intro h
      obtain ⟨entry, hentry, ht, c, hc⟩ := h
      exact ⟨c, entry, hentry, ht.symm, hc⟩
    · intro h
      obtain ⟨c, entry, hentry, ht, hc⟩ := h
      exact ⟨entry, hentry, ht.symm, c, hc⟩
  have hfold := stack_foldl_promote declared.toList (l.registerAll declared) t
  rw [stack_registerAll] at hfold
  simp only [hregisters] at hfold
  exact hfold

end

end Notebook.Links
