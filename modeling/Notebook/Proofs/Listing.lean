import Mathlib.Data.List.Induction
import Mathlib.Data.List.Perm.Subperm
import Std.Data.ExtTreeMap
import Std.Data.ExtTreeSet

/-!
# Tables and their listings

Whatever is written goes out as a list, a table in the order of its keys, and comes back as one.
The list determines the table, so nothing is lost on the way. A list that was written by somebody
else may name a key twice; the table keeps one entry for it. A list that grows at its end keeps
the places of what it holds already.
-/

set_option autoImplicit false

namespace Notebook

open Std

theorem getElem?_concat_eq_some {α : Type} {xs : List α} {x y : α} {n : Nat} :
    (xs ++ [x])[n]? = some y ↔ xs[n]? = some y ∨ n = xs.length ∧ x = y := by
  by_cases hn : n < xs.length
  · rw [List.getElem?_append_left hn]
    exact (or_iff_left fun h => Nat.ne_of_lt hn h.1).symm
  · by_cases hlast : n = xs.length
    · simp [hlast]
    · have hbefore : xs[n]? = none := List.getElem?_eq_none_iff.2 (Nat.le_of_not_lt hn)
      have hafter : (xs ++ [x])[n]? = none := by
        rw [List.getElem?_eq_none_iff, List.length_append, List.length_singleton]
        omega
      simp [hbefore, hafter, hlast]

theorem nodup_setToList {α : Type} {cmp : α → α → Ordering} [TransCmp cmp] (s : ExtTreeSet α cmp) :
    s.toList.Nodup := by
  refine s.distinct_toList.imp ?_
  intro a b hab heq
  exact hab (heq ▸ ReflCmp.compare_self)

variable {α β : Type} {cmp : α → α → Ordering} [TransCmp cmp] [LawfulEqCmp cmp]

/-- A table that is built from a list holds entries of the list. -/
theorem mem_of_mem_toList_ofList {items : List (α × β)} {entry : α × β}
    (h : entry ∈ (ExtTreeMap.ofList items cmp).toList) : entry ∈ items := by
  induction items using List.reverseRecOn with
  | nil =>
    rw [ExtTreeMap.ofList_nil, ExtTreeMap.mem_toList_iff_getElem?_eq_some,
      ExtTreeMap.getElem?_empty] at h
    cases h
  | append_singleton items last ih =>
    obtain ⟨k, v⟩ := entry
    rw [ExtTreeMap.ofList_eq_insertMany_empty, ExtTreeMap.insertMany_append,
      ExtTreeMap.insertMany_list_singleton,
      ← ExtTreeMap.ofList_eq_insertMany_empty, ExtTreeMap.mem_toList_iff_getElem?_eq_some,
      ExtTreeMap.getElem?_insert] at h
    rw [List.mem_append, List.mem_singleton]
    split at h
    · rename_i hk
      cases h
      rw [← LawfulEqCmp.eq_of_compare hk]
      exact .inr rfl
    · exact .inl (ih (ExtTreeMap.mem_toList_iff_getElem?_eq_some.2 h))

/-- It holds each of them at most once, so listing it again gives no more than there was. -/
theorem subperm_toList_ofList (items : List (α × β)) :
    (ExtTreeMap.ofList items cmp).toList.Subperm items := by
  refine List.subperm_of_subset ?_ fun _ => mem_of_mem_toList_ofList
  refine ExtTreeMap.distinct_keys_toList.imp ?_
  intro a b hab heq
  exact hab (heq ▸ ReflCmp.compare_self)

variable [DecidableEq α]

/-- A table is rebuilt from its listing. -/
theorem ofList_toList (t : ExtTreeMap α β cmp) : ExtTreeMap.ofList t.toList cmp = t := by
  apply ExtTreeMap.ext_getElem?
  intro k
  cases h : t[k]? with
  | some v =>
    have hmem : (k, v) ∈ t.toList := ExtTreeMap.mem_toList_iff_getElem?_eq_some.2 h
    exact ExtTreeMap.getElem?_ofList_of_mem ReflCmp.compare_self
      ExtTreeMap.distinct_keys_toList hmem
  | none =>
    apply ExtTreeMap.getElem?_ofList_of_contains_eq_false
    rw [ExtTreeMap.map_fst_toList_eq_keys, List.contains_eq_mem, decide_eq_false_iff_not,
      ExtTreeMap.mem_keys]
    rw [ExtTreeMap.mem_iff_isSome_getElem?, h]
    exact Bool.false_ne_true

/-- A set is rebuilt from its listing. -/
theorem setOfList_toList (s : ExtTreeSet α cmp) : ExtTreeSet.ofList s.toList cmp = s := by
  apply ExtTreeSet.ext_mem
  intro k
  rw [ExtTreeSet.mem_ofList, List.contains_iff_mem, ExtTreeSet.mem_toList]

end Notebook
