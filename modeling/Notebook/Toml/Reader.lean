import Notebook.Toml.Quoted
import Notebook.Toml.Scalar
import Notebook.Toml.Tree

/-!
# Reading a settings file

A TOML document is a list of lines. A line holds a heading in brackets, a setting, or
nothing, and may end in a comment. Arrays and inline tables go over several lines if they
want to, with comments and a comma behind the last item; in an inline table a line may also
break on either side of an equals sign. They may be nested, but not deeper than 80 levels,
and a dotted key has 80 parts at most.

Every reader takes the characters that are left and answers what it found together with the
characters that are left then. Readers of values descend on a bound, of which twice the
length of the text is enough.
-/

set_option autoImplicit false

namespace Notebook.Toml

/-! ## 1. Blanks and comments -/

/-- What follows blanks inside a line. -/
def skipSpace (s : List Char) : List Char :=
  s.dropWhile isSpace

/-- What follows a comment, if one begins here: the line break or the end. -/
def skipComment : List Char → Option (List Char)
  | '#' :: s =>
    let rest := s.dropWhile isPlain
    match rest with
    | [] => some []
    | rest => if (skipNewline? rest).isSome then some rest else none
  | s => some s

/-- What follows blanks, comments and line breaks. -/
def skipLines : (bound : Nat) → List Char → Option (List Char)
  | 0, _ => none
  | bound + 1, s => do
    let s ← skipComment (skipSpace s)
    match skipNewline? s with
    | some rest => skipLines bound rest
    | none => some s

/-- What follows the end of a line: blanks, perhaps a comment, and the line break or the end. -/
def endLine (s : List Char) : Option (List Char) := do
  let s ← skipComment (skipSpace s)
  match s with
  | [] => some []
  | s => skipNewline? s

/-! ## 2. Keys -/

/-- May the character stand in a key without quotes? -/
def isBare (c : Char) : Bool :=
  c.isAlphanum || c = '_' || c = '-'

def readSimpleKey (s : List Char) : Option (String × List Char) :=
  match readShortText s with
  | some found => some found
  | none =>
    match s.takeWhile isBare with
    | [] => none
    | name => some (String.ofList name, s.dropWhile isBare)

/-- Reads the parts of a key: those in front of its dots, and the last one. -/
def readParts : (bound : Nat) → List Char → Option ((List String × String) × List Char)
  | 0, _ => none
  | bound + 1, s => do
    let (name, s) ← readSimpleKey (skipSpace s)
    match skipSpace s with
    | '.' :: rest =>
      let ((path, key), rest) ← readParts bound rest
      some ((name :: path, key), rest)
    | rest => some (([], name), rest)

/-- The number of parts that a key may have. -/
def maxParts : Nat := 80

/-- Reads a key: the parts in front of its dots, and the last one. -/
def readKey (s : List Char) : Option ((List String × String) × List Char) :=
  (readParts (s.length + 1) s).filter fun found => found.1.1.length < maxParts

/-! ## 3. Values -/

/-- Does the character end a value without quotes wherever it stands? -/
def endsWord (c : Char) : Bool :=
  c = '\r' || c = '\n' || c = '#' || c = ',' || c = '[' || c = ']' || c = '\x7b' ||
    c = '\x7d' || c = '='

/-- Splits a text behind a value without quotes and the blanks that follow it. A quote ends such a
value where a part of it could begin, and is like any other character elsewhere: `begins` says
whether a part could begin here. -/
def splitWord : (begins : Bool) → List Char → List Char × List Char
  | _, [] => ([], [])
  | begins, c :: s =>
    if endsWord c || begins && (c = '"' || c = '\'') then ([], c :: s)
    else
      let (word, rest) := splitWord (c = '.' || isSpace c) s
      (c :: word, rest)

/-- The text without the blanks at its end. -/
def trimEnd (s : List Char) : List Char :=
  (s.reverse.dropWhile isSpace).reverse

/-- The number of levels that arrays and inline tables may be nested. -/
def maxDepth : Nat := 80

mutual

/-- Reads a value that stands inside `depth` arrays and inline tables. -/
def readValue : (bound depth : Nat) → List Char → Option (Toml × List Char)
  | 0, _, _ => none
  | bound + 1, depth, s =>
    match s with
    | '"' :: _ => (readText s).map fun p => (.text p.1, p.2)
    | '\'' :: _ => (readText s).map fun p => (.text p.1, p.2)
    | '[' :: rest =>
      if depth < maxDepth then
        (readItems bound (depth + 1) rest).map fun p => (.array p.1, p.2)
      else none
    | '\x7b' :: rest =>
      if depth < maxDepth then do
        let (settings, rest) ← readSettings bound (depth + 1) rest
        let table ← ofSettings settings
        some (table, rest)
      else none
    | s =>
      let (word, rest) := splitWord true s
      (scalar? (trimEnd word)).map fun value => (value, rest)

/-- Reads the items of an array up to its closing bracket. -/
def readItems : (bound depth : Nat) → List Char → Option (List Toml × List Char)
  | 0, _, _ => none
  | bound + 1, depth, s => do
    match ← skipLines (s.length + 1) s with
    | ']' :: rest => some ([], rest)
    | s =>
      let (item, s) ← readValue bound depth s
      match ← skipLines (s.length + 1) s with
      | ',' :: rest =>
        let (items, rest) ← readItems bound depth rest
        some (item :: items, rest)
      | ']' :: rest => some ([item], rest)
      | _ => none

/-- Reads the settings of an inline table up to its closing brace. -/
def readSettings : (bound depth : Nat) → List Char → Option (List Setting × List Char)
  | 0, _, _ => none
  | bound + 1, depth, s => do
    match ← skipLines (s.length + 1) s with
    | '\x7d' :: rest => some ([], rest)
    | s =>
      let ((path, key), s) ← readKey s
      match ← skipLines (s.length + 1) s with
      | '=' :: s =>
        let (value, s) ← readValue bound depth (← skipLines (s.length + 1) s)
        match ← skipLines (s.length + 1) s with
        | ',' :: rest =>
          let (settings, rest) ← readSettings bound depth rest
          some (⟨path, key, value⟩ :: settings, rest)
        | '\x7d' :: rest => some ([⟨path, key, value⟩], rest)
        | _ => none
      | _ => none

end

/-! ## 4. Lines -/

/-- What a line says. -/
inductive Line where
  /-- The heading of a table. -/
  | table (path : List String) (key : String)
  /-- The heading of one more table of a series. -/
  | series (path : List String) (key : String)
  /-- A setting of the table under the last heading. -/
  | setting (setting : Setting)

def readHeading : List Char → Option (Line × List Char)
  | '[' :: s => do
    let ((path, key), s) ← readKey s
    match s with
    | ']' :: ']' :: rest => some (.series path key, rest)
    | _ => none
  | s => do
    let ((path, key), s) ← readKey s
    match s with
    | ']' :: rest => some (.table path key, rest)
    | _ => none

def readLine (s : List Char) : Option (Line × List Char) :=
  match s with
  | '[' :: rest => readHeading rest
  | s => do
    let ((path, key), s) ← readKey s
    match s with
    | '=' :: s =>
      let (value, s) ← readValue (2 * s.length + 2) 0 (skipSpace s)
      some (.setting ⟨path, key, value⟩, s)
    | _ => none

def readLines : (bound : Nat) → List Char → Option (List Line)
  | 0, _ => none
  | bound + 1, s => do
    match ← skipLines (s.length + 1) s with
    | [] => some []
    | s =>
      let (line, s) ← readLine s
      let s ← endLine s
      let lines ← readLines bound s
      some (line :: lines)

/-! ## 5. Documents -/

/-- A document under construction: its tables, and the heading of the table that settings belong
to. -/
structure Draft where
  root : Entries := []
  heading : List String := []

def Draft.add (d : Draft) : Line → Option Draft
  | .table path key => do
    let root ← Entries.atHeading (Entries.openTable key) path d.root
    some ⟨root, path ++ [key]⟩
  | .series path key => do
    let root ← Entries.atHeading (Entries.openSeries key) path d.root
    some ⟨root, path ++ [key]⟩
  | .setting s => do
    let root ← Entries.atHeading (Entries.setDotted s.key s.value s.path) d.heading d.root
    some { d with root }

/-- What follows the mark that a text file may begin with. -/
def skipMark : List Char → List Char
  | '\ufeff' :: s => s
  | s => s

/-- The entries of the document that a text denotes, if it is one. -/
def ofText? (text : String) : Option (List (String × Toml)) := do
  let s := skipMark text.toList
  let lines ← readLines (s.length + 1) s
  let draft ← lines.foldlM Draft.add {}
  some (finishEntries draft.root)

end Notebook.Toml
