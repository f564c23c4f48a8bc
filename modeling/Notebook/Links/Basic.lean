import Notebook.Fault
import Notebook.PairSet.Basic

/-!
# The registry of tags

Several cells may define the same tag. The registry records who defines what, and for each tag
a stack of *current* definers. A reference to a bare tag resolves to the cell on top of the
stack: the one that was made current most recently. When the cell that asks defines the tag
itself, the reference goes past it to the cell below, so a cell can build on another cell's
definition of a name that it redefines.

A stack is kept with the most recent definer first. No stack is stored empty, and a cell is on a
stack at most once, since it is taken off before it is put on top.
-/

set_option autoImplicit false

namespace Notebook

open Std

/-- Definers by tag, as declared or published by the cells. -/
abbrev Declarations := ExtTreeMap Tag (ExtTreeSet CellId)

/-- Who defines which tag, and whose definition is current. -/
structure Links where
  /-- A tag and a cell that defines it. -/
  definitions : PairSet Tag CellId
  /-- For each tag its current definers, most recent first. -/
  activations : ExtTreeMap Tag (List CellId)
  deriving DecidableEq

namespace Links

/-- A registry in which nothing is registered. -/
def empty : Links := ⟨∅, ∅⟩

instance : EmptyCollection Links := ⟨empty⟩

/-! ## 1. Looking -/

/-- The cells that define a tag. -/
def definers (l : Links) (tag : Tag) : ExtTreeSet CellId :=
  l.definitions.rights.row tag

/-- The cells that define a tag, or nothing if the tag is not registered. -/
def definers? (l : Links) (tag : Tag) : Option (ExtTreeSet CellId) :=
  l.definitions.rights.row? tag

/-- The tags that a cell defines. -/
def tagsOf (l : Links) (cell : CellId) : ExtTreeSet Tag :=
  l.definitions.lefts.row cell

/-- The tags that a cell defines, or nothing if it defines none. -/
def tagsOf? (l : Links) (cell : CellId) : Option (ExtTreeSet Tag) :=
  l.definitions.lefts.row? cell

def tags (l : Links) : List Tag :=
  l.definitions.rights.keys

/-- The current definers of a tag, most recent first. -/
def stack (l : Links) (tag : Tag) : List CellId :=
  l.activations.getD tag []

theorem mem_tagsOf {l : Links} {tag : Tag} {cell : CellId} :
    tag ∈ l.tagsOf cell ↔ cell ∈ l.definers tag :=
  (l.definitions.agree tag cell).symm

/-! ## 2. Resolving -/

/-- Has the tag a current definer? -/
def hasCurrent (l : Links) (tag : Tag) : Bool :=
  !(l.stack tag).isEmpty

/-- The current definer of a tag. -/
def current (l : Links) (tag : Tag) : Except Fault CellId :=
  match (l.stack tag).head? with
  | some cell => .ok cell
  | none => .error (.undefinedTag tag)

/-- Has the tag a current definer besides the cell that asks? -/
def hasExternal (l : Links) (tag : Tag) (requester : CellId) : Bool :=
  (l.stack tag).any fun cell => cell ≠ requester

/-- The most recent current definer of a tag besides the cell that asks. -/
def external (l : Links) (tag : Tag) (requester : CellId) : Except Fault CellId :=
  match l.stack tag with
  | [] => .error (.undefinedTag tag)
  | stack =>
    match stack.find? fun cell => cell ≠ requester with
    | some cell => .ok cell
    | none => .error (.ambiguousTag tag requester)

/-! ## 3. Registering -/

/-- Replaces the stack of a tag; an empty stack is dropped. -/
def setStack (activations : ExtTreeMap Tag (List CellId)) (tag : Tag) (stack : List CellId) :
    ExtTreeMap Tag (List CellId) :=
  if stack.isEmpty then activations.erase tag else activations.insert tag stack

theorem getD_setStack (activations : ExtTreeMap Tag (List CellId)) (tag t : Tag)
    (stack : List CellId) :
    (setStack activations tag stack).getD t [] = if tag = t then stack
      else activations.getD t [] := by
  cases stack with
  | nil => simp [setStack, ExtTreeMap.getD_erase]
  | cons c cs => simp [setStack, ExtTreeMap.getD_insert]

/-- Registers a cell as a definer of a tag. -/
def register (l : Links) (tag : Tag) (cell : CellId) : Links :=
  { l with definitions := l.definitions.insert tag cell }

/-- Puts a cell on top of the stack of a tag. -/
def activate (l : Links) (tag : Tag) (cell : CellId) : Links :=
  { l with
    activations := setStack l.activations tag (cell :: (l.stack tag).filter fun c => c ≠ cell) }

/-- Registers a cell as a definer of a tag and, if asked to, makes it the current one. -/
def addLink (l : Links) (tag : Tag) (cell : CellId) (makeCurrent : Bool) : Links :=
  if makeCurrent then (l.register tag cell).activate tag cell else l.register tag cell

/-- Makes the only definer of a tag current, if the tag has no current definer yet. -/
def promote (l : Links) (tag : Tag) : Links :=
  if l.hasCurrent tag then l
  else
    match (l.definers tag).toList with
    | [cell] => l.activate tag cell
    | _ => l

/-- Registers declared definers without making any of them current. Afterwards a tag of
the declaration that has no current definer and exactly one definer is promoted, since
there is no doubt whom it means. -/
def addLinks (l : Links) (declared : Declarations) : Links :=
  let registered := declared.toList.foldl
    (fun m entry => entry.2.toList.foldl (fun m cell => m.register entry.1 cell) m) l
  declared.toList.foldl
    (fun m entry => if entry.2.isEmpty then m else m.promote entry.1) registered

/-- Takes a cell off the stack of every given tag. -/
def deactivate (activations : ExtTreeMap Tag (List CellId)) (cell : CellId) (tags : List Tag) :
    ExtTreeMap Tag (List CellId) :=
  tags.foldl (fun s tag => setStack s tag ((s.getD tag []).filter fun c => c ≠ cell)) activations

/-- Forgets everything that a cell defines. -/
def removeLinks (l : Links) (cell : CellId) : Links where
  definitions := l.definitions.eraseRight cell
  activations := deactivate l.activations cell (l.tagsOf cell).toList

/-! ## 4. What an operation does to definers and activations -/

theorem mem_definers_register {l : Links} {tag t : Tag} {cell c : CellId} :
    c ∈ (l.register tag cell).definers t ↔ (t = tag ∧ c = cell) ∨ c ∈ l.definers t :=
  PairSet.mem_insert

@[simp] theorem stack_register (l : Links) (tag t : Tag) (cell : CellId) :
    (l.register tag cell).stack t = l.stack t := rfl

@[simp] theorem definers_activate (l : Links) (tag t : Tag) (cell : CellId) :
    (l.activate tag cell).definers t = l.definers t := rfl

theorem stack_activate (l : Links) (tag t : Tag) (cell : CellId) :
    (l.activate tag cell).stack t =
      if tag = t then cell :: (l.stack tag).filter fun c => c ≠ cell else l.stack t :=
  getD_setStack l.activations tag t _

theorem mem_definers_removeLinks {l : Links} {t : Tag} {cell c : CellId} :
    c ∈ (l.removeLinks cell).definers t ↔ c ∈ l.definers t ∧ c ≠ cell :=
  PairSet.mem_eraseRight

theorem getD_deactivate (activations : ExtTreeMap Tag (List CellId)) (cell : CellId)
    (tags : List Tag) (t : Tag) :
    (deactivate activations cell tags).getD t [] =
      if t ∈ tags then (activations.getD t []).filter fun c => c ≠ cell
        else activations.getD t [] := by
  induction tags generalizing activations with
  | nil => simp [deactivate]
  | cons tag tags ih =>
    rw [deactivate, List.foldl_cons, ← deactivate, ih, getD_setStack]
    by_cases h : tag = t
    · subst h; simp
    · simp [h, Ne.symm h]

theorem stack_removeLinks (l : Links) (cell : CellId) (t : Tag) :
    (l.removeLinks cell).stack t =
      if t ∈ l.tagsOf cell then (l.stack t).filter fun c => c ≠ cell else l.stack t := by
  rw [stack, removeLinks, getD_deactivate]
  simp [stack]

end Links

end Notebook
