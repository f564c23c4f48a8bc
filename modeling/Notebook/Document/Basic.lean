import Notebook.Cell.Snapshot

/-!
# Saved notebooks

Everything that is needed to rebuild a notebook, computed outputs left out: a snapshot for each
cell and the edges of the dependency graph, declared and discovered. A notebook that the engine
saves files each snapshot under its own identity and lists each edge once. A file may say
otherwise, and is read as it is.
-/

set_option autoImplicit false

namespace Notebook

open Std

/-- A saved notebook. -/
structure Document where
  cells : ExtTreeMap CellId Snapshot := ∅
  /-- The edges, from a parent to a child. -/
  edges : List (CellId × CellId) := []
  deriving DecidableEq

end Notebook
