import Notebook.Proofs.Engine.Cells
import Notebook.Run.Execution

/-!
# What an act comes to

Acts are composed by sequencing, and every operation that may run code is such a composition.
Here each of them is taken apart once: an equation says what its outcome is, in terms of the
outcomes of its parts. A statement about runs is proved with these equations and does not
look at the compositions again.

The second half is about the limit for the nesting of runs. The limit decides only whether
there is an outcome, never which:

> **more levels, same outcome**: an act that has an outcome has the same one with any larger limit.
-/

set_option autoImplicit false

namespace Notebook

variable {V σ α β : Type}

/-! ## 1. Sequencing -/

/-- The turn with notes that were taken before it. -/
def Turn.behind (t : Turn V σ α) (earlier : List (Event V)) : Turn V σ α :=
  { t with events := earlier ++ t.events }

@[simp] theorem Turn.behind_nil (t : Turn V σ α) : t.behind [] = t := rfl

@[simp] theorem Turn.reply_behind (t : Turn V σ α) (earlier : List (Event V)) :
    (t.behind earlier).reply = t.reply := rfl

@[simp] theorem Turn.engine_behind (t : Turn V σ α) (earlier : List (Event V)) :
    (t.behind earlier).engine = t.engine := rfl

@[simp] theorem Turn.state_behind (t : Turn V σ α) (earlier : List (Event V)) :
    (t.behind earlier).state = t.state := rfl

@[simp] theorem Turn.events_behind (t : Turn V σ α) (earlier : List (Event V)) :
    (t.behind earlier).events = earlier ++ t.events := rfl

namespace Act

theorem bind_apply (act : Act V σ α) (next : α → Act V σ β) (e : Engine V) (s : σ) :
    (act >>= next) e s = (act e s).bind fun first =>
      (next first.reply first.engine first.state).map fun second => second.behind first.events :=
  rfl

/-- A sequence has an outcome if both parts have one. -/
theorem bind_eq_some {act : Act V σ α} {next : α → Act V σ β} {e : Engine V} {s : σ}
    {t : Turn V σ β} :
    (act >>= next) e s = some t ↔ ∃ first, act e s = some first ∧
      ∃ second, next first.reply first.engine first.state = some second ∧
        second.behind first.events = t := by
  rw [bind_apply, Option.bind_eq_some_iff]
  constructor
  · rintro ⟨first, hfirst, h⟩
    exact ⟨first, hfirst, Option.map_eq_some_iff.1 h⟩
  · rintro ⟨first, hfirst, h⟩
    exact ⟨first, hfirst, Option.map_eq_some_iff.2 h⟩

@[simp] theorem reply_apply (value : α) (e : Engine V) (s : σ) :
    (reply value : Act V σ α) e s = some ⟨value, e, s, []⟩ := rfl

/-- An act, and what is made of its reply. -/
theorem bind_reply (act : Act V σ α) (g : α → β) (e : Engine V) (s : σ) :
    (act >>= fun value => reply (g value)) e s =
      (act e s).map fun t => ⟨g t.reply, t.engine, t.state, t.events⟩ := by
  rw [bind_apply]
  cases act e s with
  | none => rfl
  | some t => simp [Turn.behind]

theorem map_behind_nil (outcome : Option (Turn V σ α)) :
    (outcome.map fun t => t.behind []) = outcome := by
  cases outcome <;> rfl

@[simp] theorem engine_bind (next : Engine V → Act V σ β) (e : Engine V) (s : σ) :
    (engine >>= next) e s = next e e s :=
  map_behind_nil _

@[simp] theorem state_bind (next : σ → Act V σ β) (e : Engine V) (s : σ) :
    (state >>= next) e s = next s e s :=
  map_behind_nil _

@[simp] theorem modifyState_bind (f : σ → σ) (next : Unit → Act V σ β) (e : Engine V) (s : σ) :
    (modifyState f >>= next) e s = next () e (f s) :=
  map_behind_nil _

@[simp] theorem note_bind (event : Event V) (next : Unit → Act V σ β) (e : Engine V) (s : σ) :
    (note event >>= next) e s = (next () e s).map fun t => t.behind [event] := rfl

@[simp] theorem step_bind (st : Step V) (next : Except Fault Unit → Act V σ β) (e : Engine V)
    (s : σ) :
    (step st >>= next) e s =
      (next ((e.step st).map fun _ => ()) (e.apply st) s).map fun t => t.behind [.step st] := rfl

end Act

/-! ## 2. Operations that run code on demand -/

section

variable (fresh : FreshRun V σ) (e : Engine V) (s : σ)

theorem executeWith_apply (id : CellId) (overrides : FlagOverrides) :
    executeWith fresh id overrides e s =
      match e.cells[id]? with
      | none => some ⟨.error (.unknownCell id), e, s, []⟩
      | some cell => if cell.usesCache then some ⟨e.cachedOutput id, e, s, []⟩
        else fresh id overrides e s := by
  rw [executeWith, Act.engine_bind]
  cases e.cells[id]? with
  | none => rfl
  | some cell =>
    show (if cell.usesCache then _ else _ : Act V σ _) e s = if cell.usesCache then _ else _
    split <;> rfl

/-- **What an execution can come to**: there is no such cell, the stored output is
answered, or a new run is made. -/
theorem executeWith_cases {fresh : FreshRun V σ} {e : Engine V} {s : σ} {id : CellId}
    {overrides : FlagOverrides} {t : Turn V σ (Except Fault (Output V))}
    (h : executeWith fresh id overrides e s = some t) :
    (e.cells[id]? = none ∧ t = ⟨.error (.unknownCell id), e, s, []⟩) ∨
    (∃ cell, e.cells[id]? = some cell ∧ cell.usesCache = true ∧ t = ⟨e.cachedOutput id, e, s, []⟩) ∨
    ∃ cell, e.cells[id]? = some cell ∧ cell.usesCache = false ∧
      fresh id overrides e s = some t := by
  rw [executeWith_apply] at h
  split at h
  · rename_i hcell
    exact .inl ⟨hcell, (Option.some.inj h).symm⟩
  · rename_i cell hcell
    split at h
    · rename_i hcache
      exact .inr (.inl ⟨cell, hcell, hcache, (Option.some.inj h).symm⟩)
    · rename_i hcache
      exact .inr (.inr ⟨cell, hcell, by simpa using hcache, h⟩)

/-- A read of another cell in the table records an edge and executes the cell. -/
theorem lookUpWith_apply (context : Context) (id : CellId) :
    lookUpWith fresh context id e s =
      if !e.contains id then some ⟨.error (.unknownCell id), e, s, []⟩
      else if id = context.cell then some ⟨.error (.cyclicDependency id), e, s, []⟩
      else (executeWith fresh id {} (e.apply (.connect id context.cell)) s).map fun t =>
        ⟨t.reply.map Output.view, t.engine, t.state,
          .step (.connect id context.cell) :: t.events⟩ := by
  rw [lookUpWith, Act.engine_bind]
  split
  · rfl
  · split
    · rfl
    · rw [Act.step_bind, Act.bind_apply]
      cases executeWith fresh id {} (e.apply (.connect id context.cell)) s with
      | none => rfl
      | some t => simp [Turn.behind]

theorem readWith_apply (context : Context) (id : CellId) :
    readWith fresh context id e s =
      (lookUpWith fresh context id e s).map fun t =>
        { t with events := t.events ++ [.answered context id t.reply] } := by
  rw [readWith, Act.bind_apply]
  cases lookUpWith fresh context id e s with
  | none => rfl
  | some t => simp [Turn.behind]

/-- **What a read can come to**: there is no such cell, the cell reads itself, or the edge is
recorded and the cell executed. -/
theorem readWith_cases {fresh : FreshRun V σ} {e : Engine V} {s : σ} {context : Context}
    {id : CellId} {t : Turn V σ (Except Fault (Output V))}
    (h : readWith fresh context id e s = some t) :
    (e.contains id = false ∧
      t = ⟨.error (.unknownCell id), e, s, [.answered context id (.error (.unknownCell id))]⟩) ∨
    (id = context.cell ∧
      t = ⟨.error (.cyclicDependency id), e, s,
        [.answered context id (.error (.cyclicDependency id))]⟩) ∨
    ∃ run, e.contains id = true ∧ id ≠ context.cell ∧
      executeWith fresh id {} (e.apply (.connect id context.cell)) s = some run ∧
      t = ⟨run.reply.map Output.view, run.engine, run.state,
        .step (.connect id context.cell) :: run.events ++
        [.answered context id (run.reply.map Output.view)]⟩ := by
  rw [readWith_apply, lookUpWith_apply] at h
  cases hin : e.contains id with
  | false =>
    rw [hin] at h
    exact .inl ⟨rfl, (Option.some.inj h).symm⟩
  | true =>
    rw [hin, Bool.not_true, if_neg Bool.false_ne_true] at h
    split at h
    · rename_i hself
      exact .inr (.inl ⟨hself, (Option.some.inj h).symm⟩)
    · rename_i hself
      rw [Option.map_map] at h
      obtain ⟨run, hrun, rfl⟩ := Option.map_eq_some_iff.1 h
      exact .inr (.inr ⟨run, rfl, hself, hrun, rfl⟩)

theorem perform_done (state : σ) (value : α) :
    perform fresh (.done state value) e s = some ⟨value, e, state, []⟩ := by
  rw [perform, Act.modifyState_bind, Act.reply_apply]

theorem perform_ask (state : σ) (command : Command V)
    (next : σ → command.Reply → Program V σ α) :
    perform fresh (.ask state command next) e s =
      (carryOut fresh command e state).bind fun first =>
        (perform fresh (next first.state first.reply) first.engine first.state).map fun second =>
          second.behind first.events := by
  rw [perform, Act.modifyState_bind, Act.bind_apply]
  cases carryOut fresh command e state with
  | none => rfl
  | some t => simp

theorem perform_inspect (state : σ)
    (next : σ → (Command.inspect : Command V).Reply → Program V σ α) :
    perform fresh (.ask state .inspect next) e s = perform fresh (next state e) e state :=
  (perform_ask fresh e s state .inspect next).trans (Act.map_behind_nil _)

theorem perform_read (state : σ) (context : Context) (id : CellId)
    (next : σ → (Command.read context id : Command V).Reply → Program V σ α) :
    perform fresh (.ask state (.read context id) next) e s =
      (readWith fresh context id e state).bind fun first =>
        (perform fresh (next first.state first.reply) first.engine first.state).map fun second =>
          second.behind first.events :=
  perform_ask fresh e s state (.read context id) next

/-- Each visited cell whose turn it is is executed, and the walk goes on whatever comes of it. -/
theorem visitWith_cons (id : CellId) (ids : List CellId) :
    visitWith fresh (id :: ids) e s =
      if e.wantsUpdate id then
        (executeWith fresh id {} e s).bind fun first =>
          (visitWith fresh ids first.engine first.state).map fun rest =>
            ⟨match first.reply with
              | .ok _ => rest.reply
              | .error _ => id :: rest.reply,
            rest.engine, rest.state, first.events ++ rest.events⟩
      else visitWith fresh ids e s := by
  rw [visitWith, Act.engine_bind]
  split
  · rw [Act.bind_apply]
    cases executeWith fresh id {} e s with
    | none => rfl
    | some first =>
      simp only [Option.bind_some, Act.bind_apply]
      cases visitWith fresh ids first.engine first.state with
      | none => rfl
      | some rest => cases hreply : first.reply <;> simp [Turn.behind]
  · rfl

theorem cascadeWith_apply (id : CellId) :
    cascadeWith fresh id e s =
      (visitWith fresh (e.graph.descendantOrder id) e s).map fun t =>
        { t with
          reply := if t.reply.isEmpty then .ok () else .error (.cascadeFailure t.reply) } := by
  rw [cascadeWith, Act.engine_bind, Act.bind_apply]
  cases visitWith fresh (e.graph.descendantOrder id) e s with
  | none => rfl
  | some t => simp [Turn.behind]

end

section

variable {fresh : FreshRun V σ} {holds : Engine V → Prop}

/-- What every execution keeps is kept by visits. -/
theorem visitWith_keeps
    (hexecute : ∀ id e s t, holds e → executeWith fresh id {} e s = some t → holds t.engine)
    {ids : List CellId} {e : Engine V} {s : σ} {t : Turn V σ (List CellId)} (h : holds e)
    (ht : visitWith fresh ids e s = some t) : holds t.engine := by
  induction ids generalizing e s t with
  | nil =>
    cases ht
    exact h
  | cons id ids ih =>
    rw [visitWith_cons] at ht
    split at ht
    · obtain ⟨first, hfirst, ht⟩ := Option.bind_eq_some_iff.1 ht
      obtain ⟨rest, hrest, rfl⟩ := Option.map_eq_some_iff.1 ht
      exact ih (t := rest) (hexecute id e s first h hfirst) hrest
    · exact ih h ht

theorem cascadeWith_keeps
    (hexecute : ∀ id e s t, holds e → executeWith fresh id {} e s = some t → holds t.engine)
    {id : CellId} {e : Engine V} {s : σ} {t : Turn V σ (Except Fault Unit)} (h : holds e)
    (ht : cascadeWith fresh id e s = some t) : holds t.engine := by
  rw [cascadeWith_apply] at ht
  obtain ⟨visited, hvisited, rfl⟩ := Option.map_eq_some_iff.1 ht
  exact visitWith_keeps hexecute h hvisited

end

/-! ## 3. Requests -/

/-- The engine in which the cell of a request is run: the batch is applied, the declared tags are
registered, and who ran is forgotten. -/
def Engine.prepared (e : Engine V) (batch : Batch) : Engine V :=
  ((e.update batch).addLinks (e.update batch).declarations).resetDidRun

section

variable (fresh : FreshRun V σ) (e : Engine V) (s : σ)

theorem runRequestedWith_apply (request : Request) :
    runRequestedWith fresh request e s =
      match e.invalidate request.cell with
      | .error fault => some ⟨.error fault, e, s, [.step (.edit (.invalidate request.cell))]⟩
      | .ok stale => (fresh request.cell request.overrides stale s).map fun t =>
          t.behind [.step (.edit (.invalidate request.cell))] := by
  rw [runRequestedWith, Act.step_bind]
  have hstep : e.step (.edit (.invalidate request.cell)) = e.invalidate request.cell := rfl
  rw [Engine.apply, hstep]
  cases e.invalidate request.cell <;> rfl

theorem followUpWith_apply (id : CellId) (output : Output V) :
    followUpWith fresh id (.ok output) e s =
      (cascadeWith fresh id (e.markDescendantsStale id) s).map fun t =>
        ⟨match t.reply with
          | .ok () => none
          | .error fault => some fault,
        t.engine, t.state, .step (.edit (.markDescendantsStale id)) :: t.events⟩ := by
  rw [followUpWith, Act.step_bind, Act.bind_apply]
  have hstep : e.apply (.edit (.markDescendantsStale id)) = e.markDescendantsStale id := rfl
  rw [hstep]
  cases cascadeWith fresh id (e.markDescendantsStale id) s with
  | none => rfl
  | some t => cases hreply : t.reply <;> simp [hreply, Turn.behind]

/-- A request is the run of the requested cell in the prepared engine, and then what follows it. -/
theorem requestWith_apply (request : Request) :
    requestWith fresh request e s =
      (runRequestedWith fresh request (e.prepared request.batch) s).bind fun first =>
        (followUpWith fresh request.cell first.reply first.engine first.state).map fun second =>
          { reply := {
              cell := request.cell
              result := first.reply
              cascade := second.reply
              cells := second.engine.snapshots
              edges := second.engine.graph.edges
              deleted := second.engine.deleted }
            engine := second.engine.dropDeleted
            state := second.state
            events := [.step (.edit (.update request.batch)),
                .step (.edit (.addLinks (e.update request.batch).declarations)),
                .step (.edit .resetDidRun)] ++
              first.events ++ second.events ++ [.step (.edit .dropDeleted)] } := by
  rw [requestWith, Act.step_bind, Act.engine_bind, Act.step_bind, Act.step_bind, Act.bind_apply]
  change (Option.map _ (Option.map _ (Option.map _ (Option.bind
    (runRequestedWith fresh request (e.prepared request.batch) s) _)))) = _
  cases runRequestedWith fresh request (e.prepared request.batch) s with
  | none => rfl
  | some first =>
    simp only [Option.bind_some, Act.bind_apply]
    cases followUpWith fresh request.cell first.reply first.engine first.state with
    | none => rfl
    | some second => simp [Turn.behind, Engine.apply, Engine.step, Engine.edit]; rfl

end

/-- **What the run of a requested cell can come to**: it is refused, or the cell is marked stale
and run. -/
theorem runRequestedWith_cases {fresh : FreshRun V σ} {e : Engine V} {s : σ} {request : Request}
    {t : Turn V σ (Except Fault (Output V))} (h : runRequestedWith fresh request e s = some t) :
    (∃ fault, t = ⟨.error fault, e, s, [.step (.edit (.invalidate request.cell))]⟩) ∨
    ∃ cell run, e.cells[request.cell]? = some cell ∧
      fresh request.cell request.overrides
        { e with cells := e.cells.insert request.cell cell.markStale } s = some run ∧
      t = run.behind [.step (.edit (.invalidate request.cell))] := by
  rw [runRequestedWith_apply] at h
  obtain ⟨-, hinvalid⟩ | ⟨cell, hcell, hinvalid⟩ := e.invalidate_cases request.cell
  all_goals rw [hinvalid] at h
  · exact .inl ⟨_, (Option.some.inj h).symm⟩
  · obtain ⟨run, hrun, rfl⟩ := Option.map_eq_some_iff.1 h
    exact .inr ⟨cell, run, hcell, hrun, rfl⟩

/-- What every execution keeps, and the marks of staleness too, is kept by what follows a
requested run. -/
theorem followUpWith_keeps {fresh : FreshRun V σ} {holds : Engine V → Prop}
    (hexecute : ∀ id e s t, holds e → executeWith fresh id {} e s = some t → holds t.engine)
    (hmark : ∀ id e, holds e → holds (e.markDescendantsStale id)) {id : CellId}
    {result : Except Fault (Output V)} {e : Engine V} {s : σ} {t : Turn V σ (Option Fault)}
    (h : holds e) (ht : followUpWith fresh id result e s = some t) : holds t.engine := by
  cases result with
  | error fault =>
    cases ht
    exact h
  | ok output =>
    rw [followUpWith_apply] at ht
    obtain ⟨run, hrun, rfl⟩ := Option.map_eq_some_iff.1 ht
    exact cascadeWith_keeps hexecute (hmark id e h) hrun

/-! ## 4. Runs -/

/-- The turn of a run, from the turn of the program that was performed. The program's outcome is
published or recorded as a failure, and then the slot is handed back. -/
def Turn.concluded (t : Turn V σ (Except RunFailure (Output V))) (id : CellId)
    (slot : Option CellId) : Turn V σ (Except Fault (Output V)) :=
  match t.reply with
  | .ok output =>
    { reply := (t.engine.write ⟨id⟩ id output).map fun _ => output
      engine := (t.engine.apply (.write ⟨id⟩ id output)).resume slot
      state := t.state
      events := .step (.beginRun id) :: t.events ++
        [.step (.write ⟨id⟩ id output), .step (.resume slot)] }
  | .error failure =>
    { reply := .error (.executionFailure id failure.toText)
      engine := (t.engine.failRun id).resume slot
      state := t.state
      events := .step (.beginRun id) :: t.events ++ [.step (.failRun id), .step (.resume slot)] }

/-- A run ends with a publication or with a failure, and then the slot is handed back. -/
theorem Turn.concluded_last (t : Turn V σ (Except RunFailure (Output V))) (id : CellId)
    (slot : Option CellId) :
    ∃ last : Step V, (last = .failRun id ∨ ∃ output, last = .write ⟨id⟩ id output) ∧
      (t.concluded id slot).events =
        .step (.beginRun id) :: (t.events ++ [.step last, .step (.resume slot)]) ∧
      (t.concluded id slot).engine = (t.engine.apply last).resume slot := by
  rw [Turn.concluded]
  cases t.reply with
  | ok output => exact ⟨.write ⟨id⟩ id output, .inr ⟨output, rfl⟩, rfl, rfl⟩
  | error failure => exact ⟨.failRun id, .inl rfl, rfl, rfl⟩

theorem conclude_ok (id : CellId) (output : Output V) (e : Engine V) (s : σ) :
    conclude id (.ok output) e s =
      some ⟨(e.write ⟨id⟩ id output).map fun _ => output, e.apply (.write ⟨id⟩ id output), s,
        [.step (.write ⟨id⟩ id output)]⟩ := by
  rw [conclude, Act.step_bind]
  show some (Turn.behind ⟨((e.write ⟨id⟩ id output).map fun _ => ()).map fun _ => output,
    _, _, _⟩ _) = _
  cases e.write ⟨id⟩ id output <;> rfl

theorem conclude_error (id : CellId) (failure : RunFailure) (e : Engine V) (s : σ) :
    conclude id (.error failure) e s =
      some ⟨.error (.executionFailure id failure.toText), e.failRun id, s, [.step (.failRun id)]⟩ :=
  rfl

section

variable (runner : Runner V σ) (id : CellId) (overrides : FlagOverrides) (e : Engine V) (s : σ)

/-- What a runner is handed in a run of the cell, and what it does. -/
def Runner.programOf (cell : Cell V) : Program V σ (Except RunFailure (Output V)) :=
  runner ⟨id⟩ ⟨id, cell.runnableCode, e.flags.override overrides⟩ s

theorem runFresh_zero :
    runFresh runner 0 id overrides e s =
      if e.graph.hasCycle then some ⟨.error (.cyclicDependency id), e, s, []⟩
      else match e.cells[id]? with
        | none => some ⟨.error (.unknownCell id), e, s, []⟩
        | some _ => none := by
  rw [runFresh, Act.engine_bind]
  split
  · rfl
  · cases e.cells[id]? <;> rfl

theorem runFresh_succ (limit : Nat) :
    runFresh runner (limit + 1) id overrides e s =
      if e.graph.hasCycle then some ⟨.error (.cyclicDependency id), e, s, []⟩
      else match e.cells[id]? with
        | none => some ⟨.error (.unknownCell id), e, s, []⟩
        | some cell =>
          (perform (runFresh runner limit) (runner.programOf id overrides e s cell)
            (e.beginRun id) s).map fun t => t.concluded id e.executing := by
  rw [runFresh, Act.engine_bind]
  split
  · rfl
  · cases e.cells[id]? with
    | none => rfl
    | some cell =>
      dsimp only
      rw [Act.step_bind, Act.state_bind, Act.bind_apply]
      change Option.map _ (Option.bind
        (perform (runFresh runner limit) (runner.programOf id overrides e s cell)
        (e.beginRun id) s) _) = _
      cases perform (runFresh runner limit) (runner.programOf id overrides e s cell)
          (e.beginRun id) s with
      | none => rfl
      | some t =>
        cases hreply : t.reply with
        | ok output =>
          simp only [Option.bind_some, Option.map_some, hreply, Act.bind_apply, conclude_ok,
            Turn.concluded]
          rfl
        | error failure =>
          simp only [Option.bind_some, Option.map_some, hreply, Act.bind_apply, conclude_error,
            Turn.concluded]
          rfl

theorem runFresh_of_cycle (limit : Nat) (h : e.graph.hasCycle = true) :
    runFresh runner limit id overrides e s = some ⟨.error (.cyclicDependency id), e, s, []⟩ := by
  cases limit with
  | zero => rw [runFresh_zero, if_pos h]
  | succ limit => rw [runFresh_succ, if_pos h]

theorem runFresh_of_unknown (limit : Nat) (h : e.graph.hasCycle = false)
    (hcell : e.cells[id]? = none) :
    runFresh runner limit id overrides e s = some ⟨.error (.unknownCell id), e, s, []⟩ := by
  cases limit with
  | zero => simp [runFresh_zero, h, hcell]
  | succ limit => simp [runFresh_succ, h, hcell]

theorem runFresh_of_cell (limit : Nat) (h : e.graph.hasCycle = false) {cell : Cell V}
    (hcell : e.cells[id]? = some cell) :
    runFresh runner (limit + 1) id overrides e s =
      (perform (runFresh runner limit) (runner.programOf id overrides e s cell)
        (e.beginRun id) s).map fun t => t.concluded id e.executing := by
  simp [runFresh_succ, h, hcell]

end

/-- **What a run can come to**: it is refused because of a cycle, it is refused because there is
no such cell, or the program of the cell is performed one level deeper and concluded. -/
theorem runFresh_cases {runner : Runner V σ} {limit : Nat} {id : CellId} {overrides : FlagOverrides}
    {e : Engine V} {s : σ} {t : Turn V σ (Except Fault (Output V))}
    (h : runFresh runner limit id overrides e s = some t) :
    (e.graph.hasCycle = true ∧ t = ⟨.error (.cyclicDependency id), e, s, []⟩) ∨
    (e.graph.hasCycle = false ∧ e.cells[id]? = none ∧ t = ⟨.error (.unknownCell id), e, s, []⟩) ∨
    ∃ deeper cell run, limit = deeper + 1 ∧ e.graph.hasCycle = false ∧ e.cells[id]? = some cell ∧
      perform (runFresh runner deeper) (runner.programOf id overrides e s cell) (e.beginRun id) s =
        some run ∧
      t = run.concluded id e.executing := by
  cases hcycle : e.graph.hasCycle with
  | true =>
    rw [runFresh_of_cycle runner id overrides e s limit hcycle] at h
    exact .inl ⟨rfl, (Option.some.inj h).symm⟩
  | false =>
    cases hcell : e.cells[id]? with
    | none =>
      rw [runFresh_of_unknown runner id overrides e s limit hcycle hcell] at h
      exact .inr (.inl ⟨rfl, rfl, (Option.some.inj h).symm⟩)
    | some cell =>
      cases limit with
      | zero => simp [runFresh_zero, hcycle, hcell] at h
      | succ limit =>
        rw [runFresh_of_cell runner id overrides e s limit hcycle hcell] at h
        obtain ⟨run, hrun, rfl⟩ := Option.map_eq_some_iff.1 h
        exact .inr (.inr ⟨limit, cell, run, rfl, rfl, rfl, hrun, rfl⟩)

/-- **What holds of every run**, by induction on the limit for the nesting of runs: it holds of
what is refused, and of what a run comes to if it holds of the runs inside. -/
theorem runFresh_induct {runner : Runner V σ}
    {holds : CellId → FlagOverrides → Engine V → σ → Turn V σ (Except Fault (Output V)) → Prop}
    (hrefused : ∀ id overrides e s fault, holds id overrides e s ⟨.error fault, e, s, []⟩)
    (hrun : ∀ limit, (∀ id overrides e s t, runFresh runner limit id overrides e s = some t →
        holds id overrides e s t) →
      ∀ id overrides e s cell run, e.cells[id]? = some cell →
        perform (runFresh runner limit) (runner.programOf id overrides e s cell) (e.beginRun id) s =
          some run →
        holds id overrides e s (run.concluded id e.executing))
    (limit : Nat) :
    ∀ id overrides e s t, runFresh runner limit id overrides e s = some t →
      holds id overrides e s t := by
  induction limit with
  | zero =>
    intro id overrides e s t ht
    obtain ⟨-, rfl⟩ | ⟨-, -, rfl⟩ | ⟨deeper, cell, run, hlimit, -⟩ := runFresh_cases ht
    · exact hrefused id overrides e s _
    · exact hrefused id overrides e s _
    · cases hlimit
  | succ limit ih =>
    intro id overrides e s t ht
    obtain ⟨-, rfl⟩ | ⟨-, -, rfl⟩ | ⟨deeper, cell, run, hlimit, -, hcell, hinside, rfl⟩ :=
      runFresh_cases ht
    · exact hrefused id overrides e s _
    · exact hrefused id overrides e s _
    · cases hlimit
      exact hrun limit ih id overrides e s cell run hcell hinside

/-! ## 5. More levels -/

/-- The second act has every outcome that the first one has. -/
def Act.Extends (act act' : Act V σ α) : Prop :=
  ∀ e s t, act e s = some t → act' e s = some t

/-- Whichever cell is run, the second operation has every outcome that the first one has. -/
def FreshRun.Extends (fresh fresh' : FreshRun V σ) : Prop :=
  ∀ id overrides, (fresh id overrides).Extends (fresh' id overrides)

namespace Act

theorem Extends.refl (act : Act V σ α) : act.Extends act := fun _ _ _ h => h

theorem Extends.bind {act act' : Act V σ α} {next next' : α → Act V σ β} (hact : act.Extends act')
    (hnext : ∀ value, (next value).Extends (next' value)) :
    (act >>= next).Extends (act' >>= next') := by
  intro e s t h
  obtain ⟨first, hfirst, second, hsecond, rfl⟩ := bind_eq_some.1 h
  exact bind_eq_some.2 ⟨first, hact e s first hfirst, second, hnext _ _ _ _ hsecond, rfl⟩

end Act

section

variable {fresh fresh' : FreshRun V σ}

theorem extends_executeWith (h : FreshRun.Extends fresh fresh') :
    FreshRun.Extends (executeWith fresh) (executeWith fresh') := by
  intro id overrides
  refine (Act.Extends.refl _).bind fun engine => ?_
  split
  · exact .refl _
  · split
    · exact .refl _
    · exact h id overrides

theorem extends_readWith (h : FreshRun.Extends fresh fresh') (context : Context) (id : CellId) :
    (readWith fresh context id).Extends (readWith fresh' context id) := by
  refine Act.Extends.bind ?_ fun _ => .refl _
  refine (Act.Extends.refl _).bind fun engine => ?_
  split
  · exact .refl _
  · split
    · exact .refl _
    · exact (Act.Extends.refl _).bind fun _ => (extends_executeWith h id {}).bind fun _ => .refl _

theorem extends_visitWith (h : FreshRun.Extends fresh fresh') (ids : List CellId) :
    (visitWith fresh ids).Extends (visitWith fresh' ids) := by
  induction ids with
  | nil => exact .refl _
  | cons id ids ih =>
    refine (Act.Extends.refl _).bind fun engine => ?_
    split
    · exact (extends_executeWith h id {}).bind fun _ => ih.bind fun _ => .refl _
    · exact ih

theorem extends_cascadeWith (h : FreshRun.Extends fresh fresh') (id : CellId) :
    (cascadeWith fresh id).Extends (cascadeWith fresh' id) :=
  (Act.Extends.refl _).bind fun _ => (extends_visitWith h _).bind fun _ => .refl _

theorem extends_requestWith (h : FreshRun.Extends fresh fresh') (request : Request) :
    (requestWith fresh request).Extends (requestWith fresh' request) := by
  have hrun : (runRequestedWith fresh request).Extends (runRequestedWith fresh' request) := by
    refine (Act.Extends.refl _).bind fun taken => ?_
    split
    · exact .refl _
    · exact h _ _
  have hfollow : ∀ result, (followUpWith fresh request.cell result).Extends
      (followUpWith fresh' request.cell result) := by
    intro result
    cases result with
    | error fault => exact .refl _
    | ok output =>
      exact (Act.Extends.refl _).bind fun _ => (extends_cascadeWith h _).bind fun _ => .refl _
  exact (Act.Extends.refl _).bind fun _ => (Act.Extends.refl _).bind fun _ =>
    (Act.Extends.refl _).bind fun _ => (Act.Extends.refl _).bind fun _ =>
    hrun.bind fun result => (hfollow result).bind fun _ => .refl _

theorem extends_carryOut (h : FreshRun.Extends fresh fresh') (command : Command V) :
    (carryOut fresh command).Extends (carryOut fresh' command) := by
  cases command with
  | edit operation => exact .refl _
  | inspect => exact .refl _
  | read context id => exact extends_readWith h context id
  | write context id output => exact .refl _
  | execute id overrides => exact extends_executeWith h id overrides
  | cascade id => exact extends_cascadeWith h id
  | request request => exact extends_requestWith h request

theorem extends_perform (h : FreshRun.Extends fresh fresh') (program : Program V σ α) :
    (perform fresh program).Extends (perform fresh' program) := by
  induction program with
  | done state value => exact .refl _
  | ask state command next ih =>
    exact (Act.Extends.refl _).bind fun _ => (extends_carryOut h command).bind fun reply =>
      (Act.Extends.refl _).bind fun after => ih after reply

end

theorem extends_runFresh_succ (runner : Runner V σ) (limit : Nat) :
    FreshRun.Extends (runFresh runner limit) (runFresh runner (limit + 1)) := by
  induction limit with
  | zero =>
    intro id overrides e s t h
    obtain ⟨hcycle, rfl⟩ | ⟨hcycle, hcell, rfl⟩ | ⟨deeper, cell, run, hlimit, -⟩ := runFresh_cases h
    · exact runFresh_of_cycle runner id overrides e s _ hcycle
    · exact runFresh_of_unknown runner id overrides e s _ hcycle hcell
    · cases hlimit
  | succ limit ih =>
    intro id overrides e s t h
    obtain ⟨hcycle, rfl⟩ | ⟨hcycle, hcell, rfl⟩ |
        ⟨deeper, cell, run, hlimit, hcycle, hcell, hrun, rfl⟩ :=
      runFresh_cases h
    · exact runFresh_of_cycle runner id overrides e s _ hcycle
    · exact runFresh_of_unknown runner id overrides e s _ hcycle hcell
    · cases hlimit
      rw [runFresh_of_cell runner id overrides e s _ hcycle hcell]
      exact Option.map_eq_some_iff.2 ⟨run, extends_perform ih _ _ _ _ hrun, rfl⟩

/-- **More levels, same outcome.** -/
theorem extends_runFresh (runner : Runner V σ) {limit limit' : Nat} (h : limit ≤ limit') :
    FreshRun.Extends (runFresh runner limit) (runFresh runner limit') := by
  induction h with
  | refl => exact fun id overrides => .refl _
  | step _ ih =>
    intro id overrides e s t ht
    exact extends_runFresh_succ runner _ id overrides e s t (ih id overrides e s t ht)

end Notebook
