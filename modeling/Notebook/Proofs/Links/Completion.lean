import Mathlib.Data.List.Infix
import Mathlib.Data.List.TakeWhile
import Notebook.Links.Completion

/-!
# What completion offers

What has been typed of a reference falls into a tag and a qualifier at its *first* dollar sign.
Tags and names are arbitrary texts, with dollar signs in them or none, and a name may look like an
identity. So one text can be a reference in several ways, and it does not show which of them is
meant. Completion does not have to know:

> **a text is offered if it is a reference in any of these ways, and it is offered once.**

The ways are the three rules of `Completes`. Whatever is typed after the sign only makes the
qualifier longer, and a longer qualifier never adds an offer.
-/

set_option autoImplicit false

namespace Notebook

open Std

/-! ## 1. The two parts of a typed text -/

/-- What has been typed of the tag: everything before the first sign, or the whole text if there
is none. -/
def tagPart (typed : String) : List Char :=
  typed.toList.takeWhile fun c => c ≠ qualifierSign

/-- What has been typed of the qualifier: everything after the first sign, or nothing if there is
none. -/
def qualifierPart (typed : String) : List Char :=
  (typed.toList.dropWhile fun c => c ≠ qualifierSign).drop 1

theorem toList_sign : "$".toList = [qualifierSign] := rfl

theorem sign_mem_append (typed more : String) : qualifierSign ∈ (typed ++ "$" ++ more).toList := by
  simp [toList_sign]

/-- The tag ends at the sign, whether or not there is one in it already. -/
theorem tagPart_append_sign (typed more : String) :
    tagPart (typed ++ "$" ++ more) = tagPart typed := by
  have hfront : tagPart typed <+: typed.toList := List.takeWhile_prefix _
  rw [tagPart, String.append_assoc, String.toList_append, String.toList_append, toList_sign,
    List.takeWhile_append]
  split
  · rename_i hlength
    rw [hfront.eq_of_length hlength]
    simp
  · rfl

theorem qualifierPart_prefix_append (typed more : String) :
    qualifierPart typed <+: qualifierPart (typed ++ more) := by
  rw [qualifierPart, qualifierPart, String.toList_append, List.dropWhile_append]
  cases typed.toList.dropWhile fun c => c ≠ qualifierSign with
  | nil => exact List.nil_prefix
  | cons sign qualifier => exact List.prefix_append qualifier more.toList

namespace PartialReference

theorem tag_ofText (typed : String) : (ofText typed).tag = tagPart typed := by
  rw [ofText, tagPart]
  split
  · rename_i hnil
    exact (List.takeWhile_eq_self_iff.2 (List.dropWhile_eq_nil_iff.1 hnil)).symm
  · rfl

theorem getD_qualifier_ofText (typed : String) :
    (ofText typed).qualifier.getD [] = qualifierPart typed := by
  rw [ofText, qualifierPart]
  split
  · rename_i hnil
    rw [hnil]
    rfl
  · rename_i hcons
    rw [hcons]
    rfl

theorem isNone_qualifier_ofText (typed : String) :
    (ofText typed).qualifier.isNone = true ↔ qualifierSign ∉ typed.toList := by
  have hnil : typed.toList.dropWhile (fun c => c ≠ qualifierSign) = [] ↔
      qualifierSign ∉ typed.toList := by
    rw [List.dropWhile_eq_nil_iff]
    simp only [decide_eq_true_eq]
    exact ⟨fun h hsign => h _ hsign rfl, fun h c hc hsign => h (hsign ▸ hc)⟩
  rw [← hnil, ofText]
  split
  · rename_i h
    exact iff_of_true rfl h
  · rename_i h
    exact iff_of_false Bool.false_ne_true fun hempty => List.cons_ne_nil _ _ (h.symm.trans hempty)

end PartialReference

namespace Links

/-! ## 2. The offers -/

section

variable {l : Links} {names : ExtTreeMap String CellId} {typed : String}

/-- **What a typed text can become**: a tag, or a tag and one of its definers, who is named or
written in hexadecimal digits. -/
inductive Completes (l : Links) (names : ExtTreeMap String CellId) (typed : String) : String → Prop
  /-- Nothing says yet that the reference goes on after the tag. -/
  | bare {t : Tag} (registered : t ∈ l.tags) (tag : tagPart typed <+: t.name.toList)
      (unsigned : qualifierSign ∉ typed.toList) : Completes l names typed t.name
  | named {t : Tag} {name : String} {cell : CellId} (registered : t ∈ l.tags)
      (tag : tagPart typed <+: t.name.toList) (mapped : names[name]? = some cell)
      (defines : cell ∈ l.definers t) (qualifier : qualifierPart typed <+: name.toList) :
      Completes l names typed (t.name ++ "$" ++ name)
  | identified {t : Tag} {cell : CellId} (registered : t ∈ l.tags)
      (tag : tagPart typed <+: t.name.toList)
      (defines : cell ∈ l.definers t) (qualifier : qualifierPart typed <+: cell.toText.toList) :
      Completes l names typed (t.name ++ "$" ++ cell.toText)

theorem mem_qualifiers {t : Tag} {q : String} :
    q ∈ l.qualifiers t names ↔
      (∃ cell, names[q]? = some cell ∧ cell ∈ l.definers t) ∨
        ∃ cell ∈ l.definers t, cell.toText = q := by
  rw [qualifiers, List.mem_append, List.mem_map, List.mem_map]
  simp only [List.mem_filter, Prod.exists, ExtTreeMap.mem_toList_iff_getElem?_eq_some,
    decide_eq_true_eq, exists_and_right, exists_eq_right, ExtTreeSet.mem_toList]

theorem mem_candidates {t : Tag} {s : String} :
    s ∈ l.candidates (.ofText typed) names t ↔
      qualifierSign ∉ typed.toList ∧ s = t.name ∨
        ∃ q, (q ∈ l.qualifiers t names ∧ qualifierPart typed <+: q.toList) ∧
          t.name ++ "$" ++ q = s := by
  have hsign : qualifierSign.toString = "$" := by decide
  have hadmits : ∀ q, (PartialReference.ofText typed).admitsQualifier q = true ↔
      qualifierPart typed <+: q.toList := by
    intro q
    rw [PartialReference.admitsQualifier, PartialReference.getD_qualifier_ofText,
      List.isPrefixOf_iff_prefix]
  rw [candidates, List.mem_append, List.mem_map, hsign]
  simp only [List.mem_filter, hadmits]
  refine or_congr ?_ Iff.rfl
  rw [← PartialReference.isNone_qualifier_ofText]
  split
  · rename_i hnone
    simp [hnone]
  · rename_i hsome
    simp [hsome]

theorem mem_complete {s : String} : s ∈ l.complete typed names ↔ l.Completes names typed s := by
  have hadmits : ∀ t : Tag, (PartialReference.ofText typed).admitsTag t = true ↔
      tagPart typed <+: t.name.toList := by
    intro t
    rw [PartialReference.admitsTag, PartialReference.tag_ofText, List.isPrefixOf_iff_prefix]
  rw [complete, List.mem_eraseDups, List.mem_flatMap]
  simp only [List.mem_filter, hadmits, mem_candidates, mem_qualifiers]
  constructor
  · rintro ⟨t, ⟨ht, htag⟩, ⟨hnone, rfl⟩ |
      ⟨q, ⟨⟨cell, hmapped, hcell⟩ | ⟨cell, hcell, rfl⟩, hq⟩, rfl⟩⟩
    · exact .bare ht htag hnone
    · exact .named ht htag hmapped hcell hq
    · exact .identified ht htag hcell hq
  · intro h
    cases h with
    | bare ht htag hnone => exact ⟨_, ⟨ht, htag⟩, .inl ⟨hnone, rfl⟩⟩
    | named ht htag hmapped hcell hq =>
      exact ⟨_, ⟨ht, htag⟩, .inr ⟨_, ⟨.inl ⟨_, hmapped, hcell⟩, hq⟩, rfl⟩⟩
    | identified ht htag hcell hq =>
      exact ⟨_, ⟨ht, htag⟩, .inr ⟨_, ⟨.inr ⟨_, hcell, rfl⟩, hq⟩, rfl⟩⟩

/-- A text with the sign in it can become nothing but what one with the same tag and
less of the qualifier can. -/
theorem Completes.of_continued {typed' s : String} (htag : tagPart typed' = tagPart typed)
    (hqualifier : qualifierPart typed <+: qualifierPart typed')
    (hsign : qualifierSign ∈ typed'.toList) (h : l.Completes names typed' s) :
    l.Completes names typed s := by
  cases h with
  | bare ht hprefix hnone => exact absurd hsign hnone
  | named ht hprefix hmapped hcell hq =>
    exact .named ht (htag ▸ hprefix) hmapped hcell (hqualifier.trans hq)
  | identified ht hprefix hcell hq =>
    exact .identified ht (htag ▸ hprefix) hcell (hqualifier.trans hq)

end

/-! ## 3. Each of them once -/

/-- The first occurrences of the elements of a list are different from each other. -/
theorem nodup_eraseDups {α : Type} [DecidableEq α] (xs : List α) : xs.eraseDups.Nodup := by
  cases xs with
  | nil => exact List.nodup_nil
  | cons x xs =>
    rw [List.eraseDups_cons, List.nodup_cons]
    constructor
    · simp [List.mem_eraseDups]
    · exact nodup_eraseDups _
termination_by xs.length
decreasing_by exact Nat.lt_succ_of_le (List.length_filter_le _ xs)

/-- **Completion is exact.** It offers each text once, and a text is offered if and only if the
typed text can become it. So what is offered once the sign was typed was offered before, and so
was what is offered for a longer qualifier. -/
theorem complete_exact (l : Links) (names : ExtTreeMap String CellId) (typed : String) :
    (l.complete typed names).Nodup ∧
      (∀ s, s ∈ l.complete typed names ↔ l.Completes names typed s) ∧
      (∀ q, l.complete (typed ++ "$" ++ q) names ⊆ l.complete typed names) ∧
      ∀ q more,
        l.complete (typed ++ "$" ++ (q ++ more)) names ⊆ l.complete (typed ++ "$" ++ q) names := by
  refine ⟨nodup_eraseDups _, fun s => mem_complete, ?_, ?_⟩
  · intro q s hs
    have hqualifier : qualifierPart typed <+: qualifierPart (typed ++ "$" ++ q) := by
      rw [String.append_assoc]
      exact qualifierPart_prefix_append typed _
    exact mem_complete.2 ((mem_complete.1 hs).of_continued (tagPart_append_sign typed q) hqualifier
      (sign_mem_append typed q))
  · intro q more s hs
    have htag : tagPart (typed ++ "$" ++ (q ++ more)) = tagPart (typed ++ "$" ++ q) := by
      rw [tagPart_append_sign, tagPart_append_sign]
    have hqualifier :
        qualifierPart (typed ++ "$" ++ q) <+: qualifierPart (typed ++ "$" ++ (q ++ more)) := by
      rw [← String.append_assoc]
      exact qualifierPart_prefix_append _ more
    exact mem_complete.2 ((mem_complete.1 hs).of_continued htag hqualifier
      (sign_mem_append typed _))

/-- A definer whose name is its identity is offered once. -/
example :
    ((∅ : Links).addLink ⟨"t"⟩ ⟨0xab⟩ true).complete "t$a" (ExtTreeMap.empty.insert "ab" ⟨0xab⟩) =
      ["t$ab"] := by
  decide +kernel

end Links

end Notebook
