import Notebook.Cell.Snapshot
import Notebook.Output

/-!
# Cells

The state of one cell. A cell is *stale* from its creation until a run of it publishes an output,
and again as soon as its persistent code or one of its ancestors changes, a run of it fails, or it
is made stale on demand. A stale cell may still store an output; a cell that is not stale always
does, since publishing is the only way out of staleness.

Of all revisions only a change of persistent code drops the stored output. A cosmetic
one, of the display code or the name, changes what is reported about the cell. A
failed run drops the output too.
-/

set_option autoImplicit false

namespace Notebook

open Std

/-- The state of one cell. A new cell is stale and stores nothing. -/
structure Cell (V : Type) where
  code : Option String := none
  persistentCode : Option String := none
  executedCode : Option String := none
  inputs : References := ∅
  /-- The declared output tags, or those of the output that was published last. -/
  outputTags : ExtTreeSet Tag := ∅
  name : Option String := none
  output : Option (Output V) := none
  /-- Has the code or an ancestor changed since the output was published? -/
  stale : Bool := true
  /-- Is a run of the cell in progress? -/
  running : Bool := false
  /-- Did the cell run since the last request began? -/
  didRun : Bool := false
  autoUpdate : Bool := false
  forceCached : Bool := false
  deriving DecidableEq

namespace Cell

variable {V : Type}

/-- The state of a cell that was just created. -/
def new : Cell V := {}

instance : Inhabited (Cell V) := ⟨new⟩

/-! ## 1. Revising -/

/-- Does the revision carry a persistent code other than the stored one? -/
def changedBy (c : Cell V) (r : Revision) : Bool :=
  r.persistentCode.isSome && r.persistentCode != c.persistentCode

/-- The state after a revision. Everything but the persistent code is always replaced; the output is
dropped only if the persistent code changes. -/
def revise (c : Cell V) (r : Revision) : Cell V :=
  let told := { c with
    code := r.code
    name := r.name
    executedCode := r.executedCode
    inputs := r.inputs
    outputTags := r.outputTags
    autoUpdate := r.autoUpdate
    forceCached := r.forceCached }
  if c.changedBy r then
    { told with persistentCode := r.persistentCode, output := none, stale := true }
  else told

/-! ## 2. Running -/

/-- Stores a published output. The tags of the cell are now those of the output. -/
def publish (c : Cell V) (output : Output V) : Cell V :=
  { c with
    outputTags := output.tags
    output := some output
    stale := false
    running := false
    didRun := true }

def fail (c : Cell V) : Cell V :=
  { c with output := none, stale := true, running := false, didRun := true }

def markRunning (c : Cell V) : Cell V := { c with running := true }

def markStale (c : Cell V) : Cell V := { c with stale := true }

def resetDidRun (c : Cell V) : Cell V := { c with didRun := false }

/-- Keeps the display code as the executed code. -/
def recordExecutedCode (c : Cell V) : Cell V := { c with executedCode := c.code }

/-! ## 3. Looking -/

/-- May the stored output be answered without a run? -/
def usesCache (c : Cell V) : Bool :=
  c.forceCached || !c.stale

/-- The code that a run is handed: the persistent code, or else the display code. -/
def runnableCode (c : Cell V) : String :=
  (c.persistentCode <|> c.code).getD ""

/-- Is `parent` among the declared references? -/
def declares (c : Cell V) (parent : CellId) : Bool :=
  c.inputs.contains parent

/-- The reported part of the cell. -/
def snapshot (c : Cell V) (id : CellId) : Snapshot where
  cellId := id
  name := c.name
  code := c.code
  persistentCode := c.persistentCode
  executedCode := c.executedCode
  inputs := c.inputs.map fun _ tags => tags.toList
  outputTags := c.outputTags.toList
  autoUpdate := c.autoUpdate
  forceCached := c.forceCached

end Cell

end Notebook
