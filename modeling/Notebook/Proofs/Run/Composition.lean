import Notebook.Run.Execution

/-!
# What every composition keeps

Every operation that may run code is composed of a few acts: it looks at the engine or at
the state of the runner, takes notes, offers steps, and has cells run. So a property that
these few acts have, and that sequencing keeps, holds of all the operations as soon as it
holds of the one that runs a cell.

What is asked from outside needs less than what a program may ask: there only edits are offered.
And a program that is known to ask for certain commands only needs no more than these. The steps
that open and close a run are left out of all of them. They come in pairs, and what a run keeps
is a statement about the pair.
-/

set_option autoImplicit false

namespace Notebook

variable {V σ α : Type}

/-- A property that looking has, at the engine or at the state of the runner, and that a
sequence has if both parts do. -/
structure Act.Composed (holds : ∀ {α : Type}, Act V σ α → Prop) : Prop where
  reply : ∀ {α : Type} (value : α), holds (Act.reply value)
  engine : holds Act.engine
  state : holds Act.state
  modifyState : ∀ f, holds (Act.modifyState f)
  bind : ∀ {α β : Type} {act : Act V σ α} {next : α → Act V σ β}, holds act →
    (∀ value, holds (next value)) → holds (act >>= next)

/-- Editing has the property too. -/
structure Act.Sequential (holds : ∀ {α : Type}, Act V σ α → Prop) :
    Prop extends Act.Composed holds where
  edit : ∀ operation, holds (Act.step (.edit operation))

/-- What reads and publications are made of has the property too. -/
structure Act.Compositional (holds : ∀ {α : Type}, Act V σ α → Prop) :
    Prop extends Act.Sequential holds where
  answered : ∀ context id reply, holds (Act.note (.answered context id reply))
  connect : ∀ parent child, holds (Act.step (.connect parent child))
  write : ∀ context id output, holds (Act.step (.write context id output))

/-- The program asks for commands of this kind only. -/
inductive Program.Asks (kind : Command V → Prop) : Program V σ α → Prop
  | done (state : σ) (value : α) : Asks kind (.done state value)
  | ask {state : σ} {command : Command V} {next : σ → command.Reply → Program V σ α}
      (hcommand : kind command) (h : ∀ s reply, (next s reply).Asks kind) :
      Asks kind (.ask state command next)

/-- The edits that a request is made of. -/
def Edit.OfRequest : Edit → Prop
  | .update _ | .addLinks _ | .resetDidRun | .invalidate _ | .markDescendantsStale _ |
      .dropDeleted => True
  | _ => False

theorem Program.asks_anything (program : Program V σ α) : program.Asks fun _ => True := by
  induction program with
  | done state value => exact .done state value
  | ask state command next ih => exact .ask trivial ih

theorem Program.Asks.imp {kind kind' : Command V → Prop} {program : Program V σ α}
    (h : program.Asks kind) (hkind : ∀ command, kind command → kind' command) :
    program.Asks kind' := by
  induction h with
  | done state value => exact .done state value
  | ask hcommand _ ih => exact .ask (hkind _ hcommand) ih

variable {holds : ∀ {α : Type}, Act V σ α → Prop} {fresh : FreshRun V σ}

/-! ## 1. Executions, cascades and requests -/

namespace Act.Composed

section

variable (h : Act.Composed holds) (hfresh : ∀ id overrides, holds (fresh id overrides))

include h hfresh

theorem executeWith (id : CellId) (overrides : FlagOverrides) :
    holds (executeWith fresh id overrides) := by
  refine h.bind h.engine fun engine => ?_
  split
  · exact h.reply _
  · split
    · exact h.reply _
    · exact hfresh id overrides

theorem visitWith (ids : List CellId) : holds (visitWith fresh ids) := by
  induction ids with
  | nil => exact h.reply _
  | cons id ids ih =>
    refine h.bind h.engine fun engine => ?_
    split
    · refine h.bind (h.executeWith hfresh id {}) fun outcome => h.bind ih fun failures => ?_
      split <;> exact h.reply _
    · exact ih

theorem cascadeWith (id : CellId) : holds (cascadeWith fresh id) :=
  h.bind h.engine fun _ => h.bind (h.visitWith hfresh _) fun _ => h.reply _

theorem runRequestedWith {request : Request}
    (hedit : holds (Act.step (.edit (.invalidate request.cell)))) :
    holds (runRequestedWith fresh request) := by
  refine h.bind hedit fun taken => ?_
  split
  · exact h.reply _
  · exact hfresh _ _

theorem followUpWith {id : CellId} (hedit : holds (Act.step (.edit (.markDescendantsStale id))))
    (result : Except Fault (Output V)) : holds (followUpWith fresh id result) := by
  cases result with
  | error fault => exact h.reply _
  | ok output =>
    refine h.bind hedit fun _ => h.bind (h.cascadeWith hfresh id) fun outcome => ?_
    split <;> exact h.reply _

theorem requestWith
    (hedit : ∀ operation : Edit, operation.OfRequest → holds (Act.step (.edit operation)))
    (request : Request) : holds (requestWith fresh request) :=
  h.bind (hedit _ trivial) fun _ => h.bind h.engine fun _ => h.bind (hedit _ trivial) fun _ =>
    h.bind (hedit _ trivial) fun _ =>
        h.bind (h.runRequestedWith hfresh (hedit _ trivial)) fun result =>
    h.bind (h.followUpWith hfresh (hedit _ trivial) result) fun _ =>
    h.bind h.engine fun _ => h.bind (hedit _ trivial) fun _ => h.reply _

end

end Act.Composed

namespace Act.Sequential

section

variable (h : Act.Sequential holds) (hfresh : ∀ id overrides, holds (fresh id overrides))

include h hfresh

theorem runRequestedWith (request : Request) : holds (runRequestedWith fresh request) :=
  h.toComposed.runRequestedWith hfresh (h.edit _)

theorem requestWith (request : Request) : holds (requestWith fresh request) :=
  h.toComposed.requestWith hfresh (fun operation _ => h.edit operation) request

end

end Act.Sequential

/-! ## 2. Reads and programs -/

namespace Act.Composed

section

variable (h : Act.Composed holds)

include h

theorem readWith (hfresh : ∀ id overrides, holds (fresh id overrides)) {context : Context}
    {id : CellId} (hconnect : holds (Act.step (.connect id context.cell)))
    (hanswered : ∀ reply, holds (Act.note (.answered context id reply))) :
    holds (readWith fresh context id) := by
  refine h.bind ?_ fun reply => h.bind (hanswered reply) fun _ => h.reply reply
  refine h.bind h.engine fun engine => ?_
  split
  · exact h.reply _
  · split
    · exact h.reply _
    · exact h.bind hconnect fun _ => h.bind (h.executeWith hfresh id {}) fun _ => h.reply _

theorem perform {kind : Command V → Prop}
    (hcommand : ∀ command, kind command → holds (carryOut fresh command)) {program : Program V σ α}
    (hprogram : program.Asks kind) : holds (perform fresh program) := by
  induction hprogram with
  | done state value => exact h.bind (h.modifyState _) fun _ => h.reply value
  | ask hkind _ ih =>
    exact h.bind (h.modifyState _) fun _ => h.bind (hcommand _ hkind) fun reply =>
      h.bind h.state fun after => ih after reply

end

end Act.Composed

namespace Act.Compositional

section

variable (h : Act.Compositional holds) (hfresh : ∀ id overrides, holds (fresh id overrides))

include h hfresh

theorem carryOut (command : Command V) : holds (carryOut fresh command) := by
  cases command with
  | edit operation => exact h.edit operation
  | inspect => exact h.engine
  | read context id => exact h.readWith hfresh (h.connect _ _) (h.answered context id)
  | write context id output => exact h.write context id output
  | execute id overrides => exact h.executeWith hfresh id overrides
  | cascade id => exact h.cascadeWith hfresh id
  | request request => exact h.requestWith hfresh request

theorem perform (program : Program V σ α) : holds (perform fresh program) :=
  h.toComposed.perform (fun command _ => h.carryOut hfresh command) program.asks_anything

end

end Act.Compositional

end Notebook
