import Notebook.Links.Basic

/-!
# Completion of references

A reference to an output is written as a tag, or as a tag and a qualifier with a dollar sign
between them. The qualifier says which definer is meant, by its name or by its identity. Given
what has been typed so far, completion lists the references it could become, each of them once: by
tag, and for one tag first the bare tag, then its named definers by name, then its definers by
identity. A bare tag is only offered as long as no dollar sign was typed.
-/

set_option autoImplicit false

namespace Notebook

open Std

/-- The sign between a tag and its qualifier. -/
def qualifierSign : Char := '$'

/-- What has been typed of a reference: the beginning of the tag, and the beginning of the
qualifier if the sign between the two has been typed. -/
structure PartialReference where
  tag : List Char
  qualifier : Option (List Char)
  deriving DecidableEq, Repr

namespace PartialReference

/-- Splits the text at the first sign. -/
def ofText (text : String) : PartialReference :=
  let chars := text.toList
  match chars.dropWhile fun c => c ≠ qualifierSign with
  | [] => ⟨chars, none⟩
  | _ :: qualifier => ⟨chars.takeWhile fun c => c ≠ qualifierSign, some qualifier⟩

/-- Can the reference become one to this tag? -/
def admitsTag (r : PartialReference) (tag : Tag) : Bool :=
  r.tag.isPrefixOf tag.name.toList

/-- Can the reference become one with this qualifier? -/
def admitsQualifier (r : PartialReference) (qualifier : String) : Bool :=
  (r.qualifier.getD []).isPrefixOf qualifier.toList

end PartialReference

namespace Links

/-- The qualifiers that single out a definer of a tag: first the names, then the identities. -/
def qualifiers (l : Links) (tag : Tag) (names : ExtTreeMap String CellId) : List String :=
  (names.toList.filter fun entry => entry.2 ∈ l.definers tag).map Prod.fst ++
    (l.definers tag).toList.map CellId.toText

/-- The references to one tag that the typed text can become. -/
def candidates (l : Links) (r : PartialReference) (names : ExtTreeMap String CellId) (tag : Tag) :
    List String :=
  (if r.qualifier.isNone then [tag.name] else []) ++
    ((l.qualifiers tag names).filter r.admitsQualifier).map fun q =>
      tag.name ++ qualifierSign.toString ++ q

/-- The references that the typed text can become, each of them once. -/
def complete (l : Links) (text : String) (names : ExtTreeMap String CellId) : List String :=
  let r := PartialReference.ofText text
  ((l.tags.filter r.admitsTag).flatMap (l.candidates r names)).eraseDups

end Links

end Notebook
