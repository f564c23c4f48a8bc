import Notebook.Toml.Basic

/-!
# Tables under construction

A table of a TOML document can be put together in several places: under its own heading, under the
headings of tables inside it, and by dotted keys. What may still be added depends on how the table
came about, so a table under construction remembers its origin.

* A table that was only mentioned in a longer heading may get a heading of its own, once, or be
  added to by a dotted key. It then counts as one that came about by a dotted key.
* A table that came about by a dotted key takes more dotted keys, but no heading.
* A table with a heading takes no dotted keys from outside.
* A value, and with it an inline table, is closed.
* Each heading in double brackets adds a table to a series, and refers to that table from then on.

Keys are set once. Everything here answers nothing if the document asks for more than that.
-/

set_option autoImplicit false

namespace Notebook.Toml

/-- How a table came about. -/
inductive Origin where
  /-- It was mentioned in a longer heading. -/
  | mentioned
  | heading
  | dotted
  deriving DecidableEq, Repr

/-- What a key stands for while the document is read. -/
inductive Node where
  /-- A value, which is complete. -/
  | closed (value : Toml)
  /-- A table that may be added to. -/
  | table (origin : Origin) (entries : List (String × Node))
  /-- A series of tables, of which the last one may be added to. -/
  | series (before : List (List (String × Node))) (last : List (String × Node))
  deriving Inhabited

/-- The entries of a table under construction. -/
abbrev Entries := List (String × Node)

namespace Entries

/-- Replaces what a key stands for, or adds the key. -/
def set (entries : Entries) (key : String) (node : Node) : Entries :=
  if entries.any fun e => e.1 == key then
    entries.map fun e => if e.1 == key then (key, node) else e
  else entries ++ [(key, node)]

/-- Adds a key that is not there yet. -/
def setNew (entries : Entries) (key : String) (node : Node) : Option Entries :=
  match entries.lookup key with
  | some _ => none
  | none => some (entries ++ [(key, node)])

/-- Changes the table that a heading leads to. Tables on the way that are not there are created. -/
def atHeading (change : Entries → Option Entries) : (path : List String) → Entries → Option Entries
  | [], entries => change entries
  | key :: path, entries =>
    match entries.lookup key with
    | none => do
      let inner ← atHeading change path []
      some (entries.set key (.table .mentioned inner))
    | some (.table origin inner) => do
      let inner ← atHeading change path inner
      some (entries.set key (.table origin inner))
    | some (.series before last) => do
      let last ← atHeading change path last
      some (entries.set key (.series before last))
    | some (.closed _) => none

/-- Sets a dotted key: the keys in front of the dots lead to a table. None of the tables on the
way may have a heading, and all of them count as tables of dotted keys from then on. A series may
only be passed on the way. -/
def setDotted (key : String) (value : Toml) : (path : List String) → Entries → Option Entries
  | [], entries => entries.setNew key (.closed value)
  | step :: path, entries =>
    match entries.lookup step with
    | none => do
      let inner ← setDotted key value path []
      some (entries.set step (.table .dotted inner))
    | some (.table .heading _) => none
    | some (.table _ inner) => do
      let inner ← setDotted key value path inner
      some (entries.set step (.table .dotted inner))
    | some (.series before last) =>
      if path.isEmpty then none
      else do
        let last ← setDotted key value path last
        some (entries.set step (.series before last))
    | some (.closed _) => none

def openTable (key : String) (entries : Entries) : Option Entries :=
  match entries.lookup key with
  | none => some (entries.set key (.table .heading []))
  | some (.table .mentioned inner) => some (entries.set key (.table .heading inner))
  | some _ => none

/-- Adds an empty table to a series. -/
def openSeries (key : String) (entries : Entries) : Option Entries :=
  match entries.lookup key with
  | none => some (entries.set key (.series [] []))
  | some (.series before last) => some (entries.set key (.series (before ++ [last]) []))
  | some _ => none

end Entries

mutual

/-- What a key stands for in the complete document. -/
def Node.finish : Node → Toml
  | .closed value => value
  | .table _ entries => .table (finishEntries entries)
  | .series before last =>
    .array (finishTables before ++ [.table (finishEntries last)])

/-- The entries of a complete table. -/
def finishEntries : List (String × Node) → List (String × Toml)
  | [] => []
  | (key, node) :: rest => (key, node.finish) :: finishEntries rest

/-- The tables of a series, complete. -/
def finishTables : List (List (String × Node)) → List Toml
  | [] => []
  | entries :: rest => .table (finishEntries entries) :: finishTables rest

end

/-- A key with the keys in front of its dots, and its value. -/
structure Setting where
  path : List String
  key : String
  value : Toml

/-- The table that settings make, one after the other. -/
def ofSettings (settings : List Setting) : Option Toml :=
  (settings.foldlM (fun entries s => Entries.setDotted s.key s.value s.path entries) []).map
    fun entries => .table (finishEntries entries)

end Notebook.Toml
