import Notebook.Text.Hex
import Std.Data.ExtTreeMap
import Std.Data.ExtTreeSet

/-!
# Cell identities

A cell is identified by the counter it was created with, a 64-bit word. Everywhere outside the
engine the counter is written in hexadecimal: lower case, no leading zeros, `0` for zero. Reading
is more liberal than writing. It takes digits of either case and any number of leading zeros; what
decides is the *number* denoted, which must fit the word, and not the length of the text.

> **what is written reads back**: `ofText? id.toText = some id`.

Identities are ordered by their counter, and every table of the engine is sorted by that order.
-/

set_option autoImplicit false

namespace Notebook

/-- The identity of a cell: the execution counter it was created with. -/
structure CellId where
  value : UInt64
  deriving DecidableEq, Repr, Inhabited

namespace CellId

/-! ## The order of counters -/

instance : Ord CellId := ⟨fun a b => compare a.value b.value⟩

instance : Std.TransOrd CellId where
  eq_swap {a b} :=
    (Std.OrientedCmp.eq_swap : compare a.value b.value = (compare b.value a.value).swap)
  isLE_trans {a b c} (hab : (compare a.value b.value).isLE)
      (hbc : (compare b.value c.value).isLE) :=
    (Std.TransCmp.isLE_trans hab hbc : (compare a.value c.value).isLE)

instance : Std.LawfulEqOrd CellId where
  compare_self {a} := (Std.ReflCmp.compare_self : compare a.value a.value = .eq)
  eq_of_compare {a b} (h : compare a.value b.value = .eq) := by
    cases a; cases b
    exact congrArg CellId.mk (Std.LawfulEqCmp.eq_of_compare h)

/-! ## Text -/

def toText (id : CellId) : String :=
  String.ofList (Nat.toDigits 16 id.value.toNat)

/-- Reads an identity: at least one digit, nothing but digits, and a number that fits the word. -/
def ofText? (s : String) : Option CellId :=
  match s.toList with
  | [] => none
  | cs => (Text.hexNumeral? 0 cs).bind fun n =>
      if h : n < UInt64.size then some ⟨UInt64.ofNatLT n h⟩ else none

end CellId

end Notebook
