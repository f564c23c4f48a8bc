import Std.Data.ExtTreeMap
import Std.Data.ExtTreeSet

/-!
# Tags

A tag is the symbolic name of an output. Cells expose tags as part of what they compute, so that
other cells can refer to an output by name instead of by identity. Tags are ordered by the code
points of their text, which is also the order of their UTF-8 bytes.
-/

set_option autoImplicit false

namespace Notebook

/-- A symbolic output name. Every text is a tag, the empty one included. -/
structure Tag where
  name : String
  deriving DecidableEq, Repr, Inhabited

namespace Tag

instance : Ord Tag := ⟨fun a b => compare a.name b.name⟩

instance : Std.TransOrd Tag where
  eq_swap {a b} :=
    (Std.OrientedCmp.eq_swap : compare a.name b.name = (compare b.name a.name).swap)
  isLE_trans {a b c} (hab : (compare a.name b.name).isLE) (hbc : (compare b.name c.name).isLE) :=
    (Std.TransCmp.isLE_trans hab hbc : (compare a.name c.name).isLE)

instance : Std.LawfulEqOrd Tag where
  compare_self {a} := (Std.ReflCmp.compare_self : compare a.name a.name = .eq)
  eq_of_compare {a b} (h : compare a.name b.name = .eq) := by
    cases a; cases b
    exact congrArg Tag.mk (Std.LawfulEqCmp.eq_of_compare h)

end Tag

end Notebook
