import Notebook.Document.Binary
import Notebook.Document.Json
import Notebook.Proofs.Listing
import Notebook.Proofs.Json.RoundTrip

/-!
# A notebook saved as JSON is read back

A notebook becomes a JSON value in which every field has its own name, every table is an object
whose names are identities, and nothing is a number. Such a value is read back from its layout,
and the notebook is found in it again, field by field.

> **what is saved is read back**: `Document.ofText d.toText = .ok d`.
-/

set_option autoImplicit false

namespace Notebook

open Std

/-! ## 1. Values that are written have a text throughout -/

namespace Json

theorem textual_text? (s : Option String) : Textual (text? s) := by
  cases s with
  | none => exact .null
  | some s => exact .text s

theorem textual_ofMembers {members : List (String × Json)} (h : ∀ m ∈ members, Textual m.2) :
    Textual (ofMembers members) := by
  refine .object (fun m hm => ?_) fun m hm => ?_
  all_goals obtain ⟨m, hmem, rfl⟩ := List.mem_map.1 hm
  · exact ⟨m.1, rfl⟩
  · exact h m hmem

theorem textual_array_map {α : Type} {encode : α → Json} (h : ∀ x, Textual (encode x))
    (xs : List α) : Textual (.array (xs.map encode)) := by
  refine .array fun e he => ?_
  obtain ⟨x, -, rfl⟩ := List.mem_map.1 he
  exact h x

/-! ## 2. Finding lists and records again -/

/-- A list that was encoded item by item is decoded item by item. -/
theorem mapM_map_decode {α β : Type} {encode : α → β} {decode : β → Option α}
    (h : ∀ x, decode (encode x) = some x) (xs : List α) :
    (xs.map encode).mapM decode = some xs := by
  have hdecode : decode ∘ encode = fun x => pure (id x) := funext h
  rw [List.mapM_map, hdecode, List.mapM_pure, List.map_id]
  rfl

theorem arrayOf_map {α : Type} {encode : α → Json} {decode : Json → Option α}
    (h : ∀ x, decode (encode x) = some x) (xs : List α) :
    arrayOf decode (.array (xs.map encode)) = some xs :=
  mapM_map_decode h xs

theorem members?_ofMembers (members : List (String × Json)) :
    (ofMembers members).members? = some members := by
  rw [ofMembers, members?, mapM_map_decode]
  intro m
  rfl

/-- A record that was written with its own names. -/
theorem Fields.read_ofMembers {names : List String} {members : List (String × Json)}
    (h : members.map Prod.fst = names) (hnames : names.Nodup) :
    Fields.read names (ofMembers members) = some ⟨members, false⟩ := by
  have hknown : members.filter (fun m => m.1 ∈ names) = members := by
    rw [List.filter_eq_self]
    intro m hm
    exact decide_eq_true (h ▸ List.mem_map_of_mem hm)
  have hmembers := members?_ofMembers members
  rw [ofMembers] at hmembers ⊢
  rw [Fields.read, hmembers, Option.bind_eq_bind, Option.bind_some]
  simp only [hknown, h, if_pos hnames]

theorem nullable_text? (s : Option String) : nullable string? (text? s) = some s := by
  cases s <;> rfl

end Json

/-! ## 3. The parts of a notebook -/

theorem CellId.ofJson?_toJson (id : CellId) : CellId.ofJson? id.toJson = some id :=
  CellId.ofText?_toText id

theorem Tag.listOfJson?_listToJson (tags : List Tag) :
    Tag.listOfJson? (Tag.listToJson tags) = some tags := by
  have htag : ∀ tag : Tag, Tag.ofJson? tag.toJson = some tag := fun _ => rfl
  exact Json.arrayOf_map htag tags

theorem CellId.tableOfJson?_tableToJson {α : Type} {encode : α → Json} {decode : Json → Option α}
    (h : ∀ x, decode (encode x) = some x) (table : ExtTreeMap CellId α) :
    tableOfJson? decode (tableToJson encode table) = some table := by
  rw [tableOfJson?, tableToJson, Json.members?_ofMembers, Option.bind_eq_bind, Option.bind_some,
    Json.mapM_map_decode, Option.bind_eq_bind, Option.bind_some, ofList_toList]
  intro entry
  rw [CellId.ofText?_toText, h]
  rfl

theorem Snapshot.ofJson?_toJson (s : Snapshot) : Snapshot.ofJson? s.toJson = some s := by
  have hread : Json.Fields.read fieldNames s.toJson = some ⟨_, false⟩ :=
    Json.Fields.read_ofMembers rfl (by decide)
  have hinputs := CellId.tableOfJson?_tableToJson Tag.listOfJson?_listToJson s.inputs
  rw [ofJson?, hread]
  simp [Json.Fields.required, Json.Fields.optionalNamed, Json.Fields.optional,
    Json.Fields.withDefault,
    List.lookup_cons, hinputs, CellId.ofJson?_toJson, Tag.listOfJson?_listToJson,
    Json.nullable_text?, Json.bool?]

theorem Document.edgeOfJson?_edgeToJson (edge : CellId × CellId) :
    edgeOfJson? (edgeToJson edge) = some edge := by
  rw [edgeToJson, edgeOfJson?, CellId.ofJson?_toJson, CellId.ofJson?_toJson]
  rfl

theorem Document.ofJson?_toJson (d : Document) : Document.ofJson? d.toJson = some d := by
  have hread : Json.Fields.read ["cells", "edges"] d.toJson = some ⟨_, false⟩ :=
    Json.Fields.read_ofMembers rfl (by decide)
  have hcells := CellId.tableOfJson?_tableToJson Snapshot.ofJson?_toJson d.cells
  have hedges := Json.arrayOf_map edgeOfJson?_edgeToJson d.edges
  rw [ofJson?, hread]
  simp [Json.Fields.required, List.lookup_cons, hcells, hedges]

/-! ## 4. The file -/

theorem Tag.textual_listToJson (tags : List Tag) : (Tag.listToJson tags).Textual := by
  have htag : ∀ tag : Tag, tag.toJson.Textual := fun tag => .text tag.name
  exact Json.textual_array_map htag tags

theorem CellId.textual_tableToJson {α : Type} {encode : α → Json} (h : ∀ x, (encode x).Textual)
    (table : ExtTreeMap CellId α) : (tableToJson encode table).Textual := by
  refine Json.textual_ofMembers fun m hm => ?_
  obtain ⟨entry, -, rfl⟩ := List.mem_map.1 hm
  exact h entry.2

theorem Snapshot.textual_toJson (s : Snapshot) : s.toJson.Textual := by
  have hinputs := CellId.textual_tableToJson Tag.textual_listToJson s.inputs
  have htags := Tag.textual_listToJson s.outputTags
  refine Json.textual_ofMembers fun m hm => ?_
  simp only [List.mem_cons, List.not_mem_nil, or_false] at hm
  obtain rfl | rfl | rfl | rfl | rfl | rfl | rfl | rfl | rfl := hm
  · exact .text s.cellId.toText
  · exact Json.textual_text? s.name
  · exact Json.textual_text? s.code
  · exact Json.textual_text? s.persistentCode
  · exact Json.textual_text? s.executedCode
  · exact hinputs
  · exact htags
  · exact .bool s.autoUpdate
  · exact .bool s.forceCached

theorem Document.textual_toJson (d : Document) : d.toJson.Textual := by
  have hedge : ∀ edge, (edgeToJson edge).Textual := by
    refine fun edge => .array fun e he => ?_
    simp only [List.mem_cons, List.not_mem_nil, or_false] at he
    obtain rfl | rfl := he
    · exact .text edge.1.toText
    · exact .text edge.2.toText
  refine Json.textual_ofMembers fun m hm => ?_
  simp only [List.mem_cons, List.not_mem_nil, or_false] at hm
  obtain rfl | rfl := hm
  · exact CellId.textual_tableToJson Snapshot.textual_toJson d.cells
  · exact Json.textual_array_map hedge d.edges

/-- **What is saved is read back**, so it is saved in binary form as the same bytes. -/
theorem Document.ofText_toText (d : Document) :
    ofText d.toText = .ok d ∧ (ofText d.toText).map toBytes = .ok d.toBytes := by
  have hread : ofText d.toText = .ok d := by
    rw [ofText, toText, d.textual_toJson.ofText?_pretty, Option.bind_some, ofJson?_toJson]
  refine ⟨hread, ?_⟩
  rw [hread]
  rfl

end Notebook
