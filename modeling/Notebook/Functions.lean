import Notebook.Run.Execution

/-!
# Cells as functions

A cell can be called. It is given a signature, the names of its input variables and of its output
variables, and a call binds the arguments to the input names in the runner's namespace, makes the
cell stale, executes it, and looks the output names up. The first call executes the cell once
before, to establish its body.

A stale cell is run by its execution, unless it always answers its stored output. A call of such a
cell runs nothing: it answers from what earlier runs have left, whatever the arguments are, and
fails if no output is stored.

What a call answers has the shape of its outputs: the output of the cell itself if no variable is
declared, the value if one is, and named entries if there are several.
-/

set_option autoImplicit false

namespace Notebook

open Std

/-- The declared variables of a cell that can be called. -/
structure Signature where
  inputs : List String := []
  outputs : List String := []
  deriving DecidableEq, Repr

/-- The variables that a runner shares between calls and runs. -/
structure Namespace (V σ : Type) where
  bind : String → V → σ → σ
  lookup : String → σ → Option V

/-- What a call answers. -/
inductive Answer (V : Type) where
  /-- No output variable: the output of the cell. -/
  | output (output : Output V)
  /-- One output variable: its value. -/
  | value (value : V)
  /-- Several output variables: their values, named, in the order of declaration. -/
  | entries (entries : Entries V)
  deriving DecidableEq, Repr

/-- The cells that can be called, and those whose body is established. -/
structure Functions where
  signatures : ExtTreeMap CellId Signature := ∅
  established : ExtTreeSet CellId := ∅
  deriving DecidableEq

namespace Functions

/-! ## 1. Signatures and bodies -/

/-- Declares all variables of a cell. -/
def setSignature (f : Functions) (id : CellId) (signature : Signature) : Functions :=
  { f with signatures := f.signatures.insert id signature }

/-- Declares the input variables of a cell and leaves its output variables alone. -/
def setInputs (f : Functions) (id : CellId) (inputs : List String) : Functions :=
  f.setSignature id { (f.signatures.getD id {}) with inputs }

/-- Declares the output variables of a cell and leaves its input variables alone. -/
def setOutputs (f : Functions) (id : CellId) (outputs : List String) : Functions :=
  f.setSignature id { (f.signatures.getD id {}) with outputs }

/-- The declared variables of a cell. -/
def signature? (f : Functions) (id : CellId) : Option Signature :=
  f.signatures[id]?

/-- Says that the body of a cell is established. -/
def establish (f : Functions) (id : CellId) : Functions :=
  { f with established := f.established.insert id }

/-- Is the body of the cell established? -/
def isEstablished (f : Functions) (id : CellId) : Bool :=
  f.established.contains id

def remove (f : Functions) (id : CellId) : Functions where
  signatures := f.signatures.erase id
  established := f.established.erase id

/-! ## 2. Calls -/

section

variable {V σ : Type}

/-- Binds arguments to names, one after the other. -/
def bindAll (names : Namespace V σ) : List (String × V) → Act V σ Unit
  | [] => Act.reply ()
  | (name, value) :: rest => do
    Act.modifyState (names.bind name value)
    Act.note (.bound name value)
    bindAll names rest

/-- The value of an output variable of a cell. -/
def outputVariable (names : Namespace V σ) (id : CellId) (state : σ) (name : String) :
    Except Fault V :=
  match names.lookup name state with
  | some value => .ok value
  | none => .error (.missingOutputVariable id name)

/-- What a call answers once its cell was executed. -/
def collect (names : Namespace V σ) (id : CellId) (output : Output V) (state : σ) :
    List String → Except Fault (Answer V)
  | [] => .ok (.output output)
  | [name] => (outputVariable names id state name).map .value
  | many => do
    let values ← many.mapM (outputVariable names id state)
    .ok (.entries (Entries.named ((many.map Tag.mk).zip values)))

/-- Binds the arguments, makes the cell stale, executes it and collects its outputs. -/
def invoke (execute : FreshRun V σ) (names : Namespace V σ) (id : CellId) (signature : Signature)
    (arguments : List V) : Act V σ (Except Fault (Answer V)) := do
  bindAll names (signature.inputs.zip arguments)
  match ← Act.step (.edit (.invalidate id)) with
  | .error fault => Act.reply (.error fault)
  | .ok () =>
    match ← execute id {} with
    | .error fault => Act.reply (.error fault)
    | .ok output =>
      let state ← Act.state
      Act.reply (collect names id output state signature.outputs)

/-- Why a call is refused, if it is: the cell has no signature, is not there, or takes
another number of arguments. -/
def refusal? (f : Functions) (engine : Engine V) (id : CellId) (arguments : List V) :
    Option Fault :=
  match f.signature? id with
  | none => some (.notAFunction id)
  | some signature =>
    if !engine.contains id then some (.unknownCell id)
    else if arguments.length ≠ signature.inputs.length then
      some (.argumentCount id signature.inputs.length arguments.length)
    else none

/-- Calls a cell. The answer comes with the functions as they are after the call: its body is
established by the first call that gets as far as that. -/
def call (f : Functions) (runner : Runner V σ) (limit : Nat) (names : Namespace V σ) (id : CellId)
    (arguments : List V) : Act V σ (Except Fault (Answer V) × Functions) := do
  let engine ← Act.engine
  match f.refusal? engine id arguments with
  | some fault => Act.reply (.error fault, f)
  | none =>
    let execute := runner.execute limit
    let signature := (f.signature? id).getD {}
    if f.isEstablished id then
      let answer ← invoke execute names id signature arguments
      Act.reply (answer, f)
    else
      match ← execute id {} with
      | .error fault => Act.reply (.error fault, f)
      | .ok _ =>
        let answer ← invoke execute names id signature arguments
        Act.reply (answer, f.establish id)

end

end Functions

end Notebook
