import Notebook.Tag

/-!
# Outputs

What a successful run of a cell produces. An output is either one plain value or a sequence of
entries, each with or without a name. The names are the tags that the output exposes: a plain
output exposes none. The type of values is left open, the engine never looks inside one.

The same sequences of entries serve as the answer of a cell that is called as a function
with several output variables.
-/

set_option autoImplicit false

namespace Notebook

/-- An ordered sequence of values, each of which may carry a name. -/
structure Entries (V : Type) where
  toList : List (Option Tag × V)
  deriving DecidableEq, Repr

namespace Entries

variable {V : Type}

def empty : Entries V := ⟨[]⟩

instance : EmptyCollection (Entries V) := ⟨empty⟩

/-- Entries that all carry a name. -/
def named (entries : List (Tag × V)) : Entries V :=
  ⟨entries.map fun e => (some e.1, e.2)⟩

def push (e : Entries V) (tag : Option Tag) (value : V) : Entries V :=
  ⟨e.toList ++ [(tag, value)]⟩

/-- The value of the first entry with the given name. -/
def get? (e : Entries V) (tag : Tag) : Option V :=
  e.toList.lookup (some tag)

/-- The names that occur, in order and with repetitions. -/
def tags (e : Entries V) : List Tag :=
  e.toList.filterMap Prod.fst

def values (e : Entries V) : List V :=
  e.toList.map Prod.snd

/-- Does at least one entry carry a name? -/
def hasNames (e : Entries V) : Bool :=
  e.toList.any fun entry => entry.1.isSome

/-- The number of entries, named or not. -/
def size (e : Entries V) : Nat :=
  e.toList.length

/-- Is there no entry at all? -/
def isEmpty (e : Entries V) : Bool :=
  e.toList.isEmpty

end Entries

/-- What a successful run of a cell produces. -/
inductive Output (V : Type) where
  /-- One ordinary value. -/
  | plain (value : V)
  /-- A sequence of values, some of them named. -/
  | tagged (entries : Entries V)
  deriving DecidableEq, Repr

namespace Output

variable {V : Type}

/-- The tags that an output exposes. -/
def tags : Output V → Std.ExtTreeSet Tag
  | plain _ => ∅
  | tagged entries => Std.ExtTreeSet.ofList entries.tags

/-- Is the output a sequence of entries? -/
def isTagged : Output V → Bool
  | plain _ => false
  | tagged _ => true

/-- The value of a plain output. -/
def plain? : Output V → Option V
  | plain value => some value
  | tagged _ => none

/-- The value of the first entry with the given name; a plain output has none. -/
def get? (o : Output V) (tag : Tag) : Option V :=
  match o with
  | plain _ => none
  | tagged entries => entries.get? tag

/-- The output as a reader sees it: a single entry without a name is read as its value. -/
def view : Output V → Output V
  | tagged ⟨[(none, value)]⟩ => plain value
  | other => other

end Output

end Notebook
