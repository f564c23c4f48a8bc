import Mathlib.Data.List.Forall2
import Notebook.Functions
import Notebook.Proofs.Run.Footprint

/-!
# Calls

A call is checked before anything is done. Then the body of the cell is established if that is
due, the arguments are bound, the cell is made stale and executed, and its outputs are collected.
A call may end after each of these parts, and what has been changed by then differs:

> **a call that is refused changes nothing**, one that **cannot establish the body binds
> nothing**, and every other one leaves the body established, whatever it answers.

The last execution is one of a stale cell. It runs the code with the arguments bound,
except that a cell which always answers its stored output is not run, and then the answer
knows nothing of the arguments.
-/

set_option autoImplicit false

namespace Notebook

open Std

variable {V σ : Type}

/-! ## 1. Arguments -/

/-- The state of the runner once the variables are bound, one after the other. -/
def Namespace.bound (names : Namespace V σ) (pairs : List (String × V)) (s : σ) : σ :=
  pairs.foldl (fun s pair => names.bind pair.1 pair.2 s) s

/-- What is noted of the variables that are bound. -/
def bindings (pairs : List (String × V)) : List (Event V) :=
  pairs.map fun pair => .bound pair.1 pair.2

theorem Functions.bindAll_apply (names : Namespace V σ) (pairs : List (String × V)) (e : Engine V)
    (s : σ) : bindAll names pairs e s = some ⟨(), e, names.bound pairs s, bindings pairs⟩ := by
  induction pairs generalizing s with
  | nil => rfl
  | cons pair pairs ih =>
    obtain ⟨name, value⟩ := pair
    rw [bindAll, Act.modifyState_bind, Act.note_bind, ih]
    rfl

/-- A cell in the table can be made stale. -/
theorem Engine.step_invalidate {e : Engine V} {id : CellId} (hin : e.contains id = true) :
    ∃ cell, e.cells[id]? = some cell ∧
      e.step (.edit (.invalidate id)) =
        .ok { e with cells := e.cells.insert id cell.markStale } := by
  obtain ⟨cell, hcell⟩ := exists_cell_of_contains hin
  obtain ⟨hnone, -⟩ | hinvalid := e.invalidate_cases id
  · rw [hcell] at hnone
    cases hnone
  · exact hinvalid

/-! ## 2. Answers -/

/-- **What a call answers** if its cell has come to the output and left the state behind: the
output itself if no variable is declared, the value of a single one, and the values of
several with their names, in the order in which they are declared. If one is not bound, the
first such one is reported. -/
inductive Collected (names : Namespace V σ) (id : CellId) (output : Output V) (state : σ) :
    List String → Except Fault (Answer V) → Prop
  | output : Collected names id output state [] (.ok (.output output))
  | value {name : String} {value : V} (h : names.lookup name state = some value) :
      Collected names id output state [name] (.ok (.value value))
  | entries {declared : List String} {entries : Entries V} (hmany : 2 ≤ declared.length)
      (h : List.Forall₂ (fun name entry => entry.1 = some ⟨name⟩ ∧
        names.lookup name state = some entry.2) declared entries.toList) :
      Collected names id output state declared (.ok (.entries entries))
  | missing {before after : List String} {name : String}
      (hbefore : ∀ earlier ∈ before, (names.lookup earlier state).isSome = true)
      (hname : names.lookup name state = none) :
      Collected names id output state (before ++ name :: after)
        (.error (.missingOutputVariable id name))

theorem Collected.fault_eq {names : Namespace V σ} {id : CellId} {output : Output V} {state : σ}
    {declared : List String} {fault : Fault}
    (h : Collected names id output state declared (.error fault)) :
    ∃ name, fault = .missingOutputVariable id name := by
  cases h
  exact ⟨_, rfl⟩

namespace Functions

section

variable (names : Namespace V σ) (id : CellId) (state : σ)

/-- All variables are bound, or one is the first that is not. -/
theorem mapM_outputVariable (declared : List String) :
    (∃ values, declared.mapM (outputVariable names id state) = .ok values ∧
      List.Forall₂ (fun name value => names.lookup name state = some value) declared values) ∨
    ∃ before name after, declared = before ++ name :: after ∧
      (∀ earlier ∈ before, (names.lookup earlier state).isSome = true) ∧
      names.lookup name state = none ∧
      declared.mapM (outputVariable names id state) = .error (.missingOutputVariable id name) := by
  induction declared with
  | nil => exact .inl ⟨[], rfl, .nil⟩
  | cons name declared ih =>
    rw [List.mapM_cons]
    cases hname : names.lookup name state with
    | none =>
      refine .inr ⟨[], name, declared, rfl, by simp, hname, ?_⟩
      rw [outputVariable, hname]
      rfl
    | some value =>
      have hvalue : outputVariable names id state name = .ok value := by rw [outputVariable, hname]
      rw [hvalue]
      obtain ⟨values, hvalues, hbound⟩ |
        ⟨before, missing, after, rfl, hbefore, hmissing, herror⟩ := ih
      · refine .inl ⟨value :: values, ?_, .cons hname hbound⟩
        rw [hvalues]
        rfl
      · refine .inr ⟨name :: before, missing, after, rfl, ?_, hmissing, ?_⟩
        · rw [List.forall_mem_cons, hname]
          exact ⟨rfl, hbefore⟩
        · rw [herror]
          rfl

/-- Values in the order of their names, as entries. -/
theorem forall₂_named {declared : List String} {values : List V}
    (h : List.Forall₂ (fun name value => names.lookup name state = some value) declared values) :
    List.Forall₂ (fun name entry => entry.1 = some ⟨name⟩ ∧
      names.lookup name state = some entry.2) declared
      (Entries.named ((declared.map Tag.mk).zip values)).toList := by
  induction h with
  | nil => exact .nil
  | cons hname _ ih => exact .cons ⟨rfl, hname⟩ ih

theorem collected_collect (output : Output V) (declared : List String) :
    Collected names id output state declared (collect names id output state declared) := by
  rcases declared with _ | ⟨first, _ | ⟨second, declared⟩⟩
  · exact .output
  · show Collected names id output state ([] ++ [first])
      ((outputVariable names id state first).map .value)
    cases hfirst : names.lookup first state with
    | none =>
      rw [outputVariable, hfirst]
      exact .missing (by simp) hfirst
    | some value =>
      rw [outputVariable, hfirst]
      exact .value hfirst
  · have hcollect : collect names id output state (first :: second :: declared) =
        (first :: second :: declared).mapM (outputVariable names id state) >>= fun values =>
          .ok (.entries (Entries.named (((first :: second :: declared).map Tag.mk).zip values))) :=
      rfl
    rw [hcollect]
    obtain ⟨values, hvalues, hbound⟩ | ⟨before, name, after, hsplit, hbefore, hname, herror⟩ :=
      mapM_outputVariable names id state (first :: second :: declared)
    · rw [hvalues]
      exact .entries (by simp) (forall₂_named names state hbound)
    · rw [herror, hsplit]
      exact .missing hbefore hname

end

/-! ## 3. Checks -/

/-- **Why a call is refused**: the cell has no signature; or else it is not there; or else it
takes another number of arguments. -/
inductive Refuses (f : Functions) (e : Engine V) (id : CellId) (arguments : List V) : Fault → Prop
  | noFunction (h : f.signature? id = none) : Refuses f e id arguments (.notAFunction id)
  | noCell {signature : Signature} (hsignature : f.signature? id = some signature)
      (hout : e.contains id = false) : Refuses f e id arguments (.unknownCell id)
  | otherNumber {signature : Signature} (hsignature : f.signature? id = some signature)
      (hin : e.contains id = true) (hother : signature.inputs.length ≠ arguments.length) :
      Refuses f e id arguments (.argumentCount id signature.inputs.length arguments.length)

/-- The call passes all checks. -/
structure Accepts (f : Functions) (e : Engine V) (id : CellId) (arguments : List V)
    (signature : Signature) : Prop where
  declared : f.signature? id = some signature
  present : e.contains id = true
  number : signature.inputs.length = arguments.length

variable {f : Functions} {e : Engine V} {id : CellId} {arguments : List V} {signature : Signature}
  {fault : Fault}

theorem Refuses.refusal?_eq (h : f.Refuses e id arguments fault) :
    f.refusal? e id arguments = some fault := by
  cases h with
  | noFunction hnone => rw [refusal?, hnone]
  | noCell hsignature hout => simp [refusal?, hsignature, hout]
  | otherNumber hsignature hin hother => simp [refusal?, hsignature, hin, Ne.symm hother]

theorem Accepts.refusal?_eq (h : f.Accepts e id arguments signature) :
    f.refusal? e id arguments = none := by
  simp [refusal?, h.declared, h.present, h.number]

/-- A call is refused for one of the reasons, or it is accepted. -/
theorem refuses_or_accepts (f : Functions) (e : Engine V) (id : CellId) (arguments : List V) :
    (∃ fault, f.Refuses e id arguments fault) ∨
      ∃ signature, f.Accepts e id arguments signature := by
  cases hsignature : f.signature? id with
  | none => exact .inl ⟨_, .noFunction hsignature⟩
  | some signature =>
    cases hin : e.contains id with
    | false => exact .inl ⟨_, .noCell hsignature hin⟩
    | true =>
      by_cases hnumber : signature.inputs.length = arguments.length
      · exact .inr ⟨signature, hsignature, hin, hnumber⟩
      · exact .inl ⟨_, .otherNumber hsignature hin hnumber⟩

/-! ## 4. The parts of a call -/

/-- Establishing a body a second time changes nothing. -/
theorem establish_eq_self (h : f.isEstablished id = true) : f.establish id = f := by
  have hestablished : f.established.insert id = f.established := by
    apply ExtTreeSet.ext_mem
    intro c
    rw [ExtTreeSet.mem_insert, Std.compare_eq_iff_eq, or_iff_right_of_imp]
    rintro rfl
    exact h
  rw [establish, hestablished]

/-- What a call begins with once the body is established: it was before, or its first execution
has succeeded. -/
inductive Opens (f : Functions) (execute : FreshRun V σ) (id : CellId) (e : Engine V) (s : σ) :
    Engine V → σ → List (Event V) → Prop
  | established (hbody : f.isEstablished id = true) : Opens f execute id e s e s []
  | establishing {first : Turn V σ (Except Fault (Output V))} {output : Output V}
      (hbody : f.isEstablished id = false)
      (hfirst : execute id {} e s = some first) (hok : first.reply = .ok output) :
      Opens f execute id e s first.engine first.state first.events

variable {execute : FreshRun V σ} {runner : Runner V σ} {limit : Nat} {names : Namespace V σ}
  {e' : Engine V} {s s' : σ} {earlier : List (Event V)}

theorem Opens.extend (h : f.Opens execute id e s e' s' earlier) {execute' : FreshRun V σ}
    (hextends : FreshRun.Extends execute execute') : f.Opens execute' id e s e' s' earlier := by
  cases h with
  | established hbody => exact .established hbody
  | establishing hbody hfirst hok => exact .establishing hbody (hextends id {} e s _ hfirst) hok

/-- Establishing the body leaves the notebook alone. -/
theorem Opens.frame (h : f.Opens execute id e s e' s' earlier) (hframed : FreshRun.Framed execute) :
    Engine.Frame e e' := by
  cases h with
  | established => exact .refl e
  | establishing _ hfirst _ => exact hframed id {} e s _ hfirst

/-- Once the cell is stale, there are still the cells of the beginning. -/
theorem Opens.contains_invalidated (h : f.Opens execute id e s e' s' earlier)
    (hframed : FreshRun.Framed execute) (c : CellId) :
    (e'.apply (.edit (.invalidate id))).contains c = e.contains c := by
  have hsilent : (Edit.invalidate id).Silent := trivial
  rw [Engine.contains_of_told ((Engine.apply_of_silent hsilent e').2.2 c),
    (h.frame hframed).contains]

theorem invoke_apply (execute : FreshRun V σ) (names : Namespace V σ) (signature : Signature)
    (arguments : List V) (hin : e.contains id = true) (s : σ) :
    invoke execute names id signature arguments e s =
      (execute id {} (e.apply (.edit (.invalidate id)))
        (names.bound (signature.inputs.zip arguments) s)).map fun last =>
        ⟨last.reply.bind fun output => collect names id output last.state signature.outputs,
          last.engine, last.state,
          bindings (signature.inputs.zip arguments) ++ .step (.edit (.invalidate id)) ::
            last.events⟩ := by
  obtain ⟨_, -, hstep⟩ := Engine.step_invalidate hin
  rw [invoke, Act.bind_apply, bindAll_apply, Option.bind_some, Act.step_bind, hstep]
  show Option.map _ (Option.map _ ((execute id {} >>= _) (e.apply (.edit (.invalidate id))) _)) = _
  rw [Act.bind_apply]
  cases execute id {} (e.apply (.edit (.invalidate id)))
      (names.bound (signature.inputs.zip arguments) s) with
  | none => rfl
  | some last =>
    obtain ⟨reply, engine, state, events⟩ := last
    cases reply with
    | error fault => simp [Turn.behind, Except.bind]
    | ok output => simp [Turn.behind, Except.bind]

theorem call_of_refuses (h : f.Refuses e id arguments fault) (runner : Runner V σ) (limit : Nat)
    (names : Namespace V σ) (s : σ) :
    f.call runner limit names id arguments e s = some ⟨(.error fault, f), e, s, []⟩ := by
  rw [call, Act.engine_bind, h.refusal?_eq]
  rfl

/-- The first execution has failed. -/
theorem call_of_error (h : f.Accepts e id arguments signature) (hbody : f.isEstablished id = false)
    {first : Turn V σ (Except Fault (Output V))}
    (hfirst : runner.execute limit id {} e s = some first) (hfault : first.reply = .error fault)
    (names : Namespace V σ) :
    f.call runner limit names id arguments e s =
      some ⟨(.error fault, f), first.engine, first.state, first.events⟩ := by
  rw [call, Act.engine_bind, h.refusal?_eq]
  dsimp only
  rw [hbody, if_neg Bool.false_ne_true, Act.bind_apply, hfirst, Option.bind_some, hfault]
  simp [Turn.behind]

/-- The body is established, and the arguments are bound next. -/
theorem call_of_opens (h : f.Accepts e id arguments signature)
    (hopens : f.Opens (runner.execute limit) id e s e' s' earlier) (names : Namespace V σ) :
    f.call runner limit names id arguments e s =
      (invoke (runner.execute limit) names id signature arguments e' s').map fun t =>
        ⟨(t.reply, f.establish id), t.engine, t.state, earlier ++ t.events⟩ := by
  rw [call, Act.engine_bind, h.refusal?_eq, h.declared]
  dsimp only
  rw [Option.getD_some]
  cases hopens with
  | established hbody =>
    rw [hbody, if_pos rfl, establish_eq_self hbody, Act.bind_reply]
    rfl
  | establishing hbody hfirst hok =>
    rw [hbody, if_neg Bool.false_ne_true, Act.bind_apply, hfirst, Option.bind_some, hok]
    dsimp only
    rw [Act.bind_reply, Option.map_map]
    rfl

/-! ## 5. A call -/

/-- What is noted of a call with arguments: what happened before, the bindings, that the cell is
made stale, and the last execution. -/
def callEvents (id : CellId) (pairs : List (String × V)) (earlier last : List (Event V)) :
    List (Event V) :=
  earlier ++ (bindings pairs ++ .step (.edit (.invalidate id)) :: last)

/-- **What a call comes to**, and what it has done by then.

* It is refused, and nothing has been done.
* The body is not established, and the execution that is to establish it fails. Nothing has been
  bound.
* The body is established, the arguments are bound, the cell is made stale and
  executed, and the execution fails.
* The execution succeeds, and its outputs are collected. -/
inductive Outcome (f : Functions) (execute : FreshRun V σ) (names : Namespace V σ) (id : CellId)
    (arguments : List V) (e : Engine V) (s : σ) :
    Turn V σ (Except Fault (Answer V) × Functions) → Prop
  | refused {fault : Fault} (hrefuses : f.Refuses e id arguments fault) :
      Outcome f execute names id arguments e s ⟨(.error fault, f), e, s, []⟩
  | aborted {signature : Signature} {first : Turn V σ (Except Fault (Output V))} {fault : Fault}
      (haccepts : f.Accepts e id arguments signature) (hbody : f.isEstablished id = false)
      (hfirst : execute id {} e s = some first) (hfault : first.reply = .error fault)
      (hunbound : ∀ name value, .bound name value ∉ first.events) :
      Outcome f execute names id arguments e s
        ⟨(.error fault, f), first.engine, first.state, first.events⟩
  | failed {signature : Signature} {e' : Engine V} {s' : σ} {earlier : List (Event V)}
      {last : Turn V σ (Except Fault (Output V))} {fault : Fault}
      (haccepts : f.Accepts e id arguments signature)
      (hopens : f.Opens execute id e s e' s' earlier)
      (hlast : execute id {} (e'.apply (.edit (.invalidate id)))
        (names.bound (signature.inputs.zip arguments) s') = some last)
      (hfault : last.reply = .error fault) :
      Outcome f execute names id arguments e s
        ⟨(.error fault, f.establish id), last.engine, last.state,
        callEvents id (signature.inputs.zip arguments) earlier last.events⟩
  | answered {signature : Signature} {e' : Engine V} {s' : σ} {earlier : List (Event V)}
      {last : Turn V σ (Except Fault (Output V))} {output : Output V}
      {answer : Except Fault (Answer V)}
      (haccepts : f.Accepts e id arguments signature)
        (hopens : f.Opens execute id e s e' s' earlier)
      (hlast : execute id {} (e'.apply (.edit (.invalidate id)))
        (names.bound (signature.inputs.zip arguments) s') = some last)
      (hok : last.reply = .ok output)
      (hanswer : Collected names id output last.state signature.outputs answer) :
      Outcome f execute names id arguments e s ⟨(answer, f.establish id), last.engine, last.state,
        callEvents id (signature.inputs.zip arguments) earlier last.events⟩

/-- Once the body is established, a call of a runner that only reads returns. -/
theorem Opens.call_returns (hopens : f.Opens (runner.execute e.cells.size) id e s e' s' earlier)
    (hr : runner.OnlyReads) (haccepts : f.Accepts e id arguments signature)
    (names : Namespace V σ) :
    ∃ t, (∀ limit, e.cells.size ≤ limit → f.call runner limit names id arguments e s = some t) ∧
      f.Outcome (runner.execute e.cells.size) names id arguments e s t := by
  have hframed : FreshRun.Framed (runner.execute e.cells.size) :=
    framed_executeWith (framed_runFresh hr _)
  -- The last execution knows the cells that there were in the beginning, so that the same
  -- number of levels will do.
  have hknown : ∀ c, (e'.apply (.edit (.invalidate id))).contains c = true →
      c ∈ e.cells.keys := fun c hc =>
    ExtTreeMap.mem_keys.2 (by rwa [hopens.contains_invalidated hframed] at hc)
  obtain ⟨last, hlast⟩ := hr.execute_returns_among hknown id {}
    (names.bound (signature.inputs.zip arguments) s')
  rw [ExtTreeMap.length_keys] at hlast
  refine
    ⟨⟨(last.reply.bind fun output => collect names id output last.state signature.outputs,
          f.establish id),
        last.engine, last.state,
        callEvents id (signature.inputs.zip arguments) earlier last.events⟩,
      fun limit hlimit => ?_, ?_⟩
  · have hextends : FreshRun.Extends (runner.execute e.cells.size) (runner.execute limit) :=
      extends_executeWith (extends_runFresh runner hlimit)
    have hin : e'.contains id = true := ((hopens.frame hframed).contains id).trans haccepts.present
    rw [call_of_opens haccepts (hopens.extend hextends), invoke_apply _ _ _ _ hin,
      hlast limit hlimit]
    rfl
  · cases hreply : last.reply with
    | error fault => exact .failed haccepts hopens (hlast _ (Nat.le_refl _)) hreply
    | ok output =>
      exact .answered haccepts hopens (hlast _ (Nat.le_refl _)) hreply (collected_collect ..)

end Functions

/-- **Every call returns**, and comes to one of the outcomes. -/
theorem Runner.OnlyReads.call_outcome {runner : Runner V σ} (hr : runner.OnlyReads) (f : Functions)
    (names : Namespace V σ) (id : CellId) (arguments : List V) (e : Engine V) (s : σ) :
    ∃ t, (∀ limit, e.cells.size ≤ limit → f.call runner limit names id arguments e s = some t) ∧
      f.Outcome (runner.execute e.cells.size) names id arguments e s t := by
  obtain ⟨fault, hrefuses⟩ | ⟨signature, haccepts⟩ := f.refuses_or_accepts e id arguments
  · exact ⟨_, fun limit _ => Functions.call_of_refuses hrefuses runner limit names s,
      .refused hrefuses⟩
  · cases hbody : f.isEstablished id with
    | true => exact Functions.Opens.call_returns (.established hbody) hr haccepts names
    | false =>
      obtain ⟨first, hfirst⟩ := hr.execute_returns id {} e s
      have hrun := hfirst _ (Nat.le_refl _)
      cases hreply : first.reply with
      | ok output =>
        exact Functions.Opens.call_returns (.establishing hbody hrun hreply) hr haccepts names
      | error fault =>
        refine ⟨_, fun limit hlimit =>
          Functions.call_of_error haccepts hbody (hfirst limit hlimit) hreply names,
          .aborted haccepts hbody hrun hreply fun name value hbound => ?_⟩
        obtain ⟨-, -, hruns⟩ := hr.execute_notes hrun
        exact hruns _ hbound

/-! ## 6. The contract -/

/-- What is answered for a cell in the table without running it. -/
theorem Engine.cachedOutput_cases {e : Engine V} {id : CellId} {cell : Cell V}
    (hcell : e.cells[id]? = some cell) :
    (cell.output = none ∧ e.cachedOutput id = .error (.notYetComputed id)) ∨
      ∃ output, cell.output = some output ∧ e.cachedOutput id = .ok output := by
  rw [cachedOutput, hcell]
  dsimp only
  cases cell.output with
  | none => exact .inl ⟨rfl, rfl⟩
  | some output => exact .inr ⟨output, rfl, rfl⟩

/-- What an execution of a cell in the table may fail with. -/
theorem Runner.OnlyReads.fault_of_execute {runner : Runner V σ} (hr : runner.OnlyReads)
    {limit : Nat} {id : CellId} {overrides : FlagOverrides} {e : Engine V} {s : σ}
    {t : Turn V σ (Except Fault (Output V))} {fault : Fault}
    (ht : runner.execute limit id overrides e s = some t) (hin : e.contains id = true)
    (hfault : t.reply = .error fault) :
    fault = .notYetComputed id ∨ fault = .cyclicDependency id ∨
      ∃ message, fault = .executionFailure id message := by
  obtain ⟨cell, hcell⟩ := Engine.exists_cell_of_contains hin
  obtain ⟨hnone, -⟩ | ⟨_, -, -, rfl⟩ | ⟨_, -, -, hrun⟩ := executeWith_cases ht
  · rw [hcell] at hnone
    cases hnone
  · have hcached : e.cachedOutput id = .error fault := hfault
    obtain ⟨-, hanswer⟩ | ⟨output, -, hanswer⟩ := Engine.cachedOutput_cases hcell
    all_goals
      rw [hanswer] at hcached
      cases hcached
    exact .inl rfl
  · obtain ⟨-, rfl⟩ | ⟨-, hnone, -⟩ | ⟨deeper, found, run, -, -, hfound, hinside, rfl⟩ :=
      Notebook.runFresh_cases hrun
    · cases hfault
      exact .inr (.inl rfl)
    · rw [hcell] at hnone
      cases hnone
    · have hframe := frame_of_perform (framed_runFresh hr deeper)
        (hr.programOf id overrides e s found) hinside
      obtain ⟨hslot, cell', hcell', -⟩ := hframe.afterBegin hfound
      cases hreply : run.reply with
      | ok output =>
        rw [Turn.concluded_of_ok hslot hcell' hreply] at hfault
        cases hfault
      | error failure =>
        rw [Turn.concluded_of_error hreply] at hfault
        cases hfault
        exact .inr (.inr ⟨_, rfl⟩)

/-- Calls are refused with faults of this kind. -/
def Fault.RefusesCall : Fault → Prop
  | .notAFunction _ => True
  | .unknownCell _ => True
  | .argumentCount _ _ _ => True
  | _ => False

/-- A call that is not refused does not fail as if it were. -/
theorem Functions.Outcome.refuses_of_error {f : Functions} {runner : Runner V σ} {limit : Nat}
    {names : Namespace V σ} {id : CellId} {arguments : List V} {e : Engine V} {s : σ}
    {t : Turn V σ (Except Fault (Answer V) × Functions)}
    (h : f.Outcome (runner.execute limit) names id arguments e s t) (hr : runner.OnlyReads)
    {fault : Fault} (hkind : fault.RefusesCall) (hfault : t.reply.1 = .error fault) :
    f.Refuses e id arguments fault := by
  have hframed : FreshRun.Framed (runner.execute limit) :=
    framed_executeWith (framed_runFresh hr limit)
  have hexecution : ∀ {e : Engine V} {s : σ} {run : Turn V σ (Except Fault (Output V))},
      runner.execute limit id {} e s = some run → e.contains id = true →
        run.reply ≠ .error fault := by
    intro e s run hrun hin herror
    obtain rfl | rfl | ⟨_, rfl⟩ := hr.fault_of_execute hrun hin herror
    all_goals exact hkind
  cases h with
  | refused hrefuses =>
    cases hfault
    exact hrefuses
  | aborted haccepts _ hfirst hfirstFault =>
    cases hfault
    exact (hexecution hfirst haccepts.present hfirstFault).elim
  | failed haccepts hopens hlast hlastFault =>
    cases hfault
    exact (hexecution hlast ((hopens.contains_invalidated hframed id).trans haccepts.present)
      hlastFault).elim
  | answered _ _ _ _ hanswer =>
    cases hfault
    obtain ⟨name, rfl⟩ := hanswer.fault_eq
    exact hkind.elim

/-- **The contract of a call.** It returns, and comes to one of the outcomes. It answers a fault
of a refusal if and only if it is refused for it, and then nothing has happened. -/
theorem Runner.OnlyReads.call_contract {runner : Runner V σ} (hr : runner.OnlyReads) (f : Functions)
    (names : Namespace V σ) (id : CellId) (arguments : List V) (e : Engine V) (s : σ) :
    ∃ t, (∀ limit, e.cells.size ≤ limit → f.call runner limit names id arguments e s = some t) ∧
      f.Outcome (runner.execute e.cells.size) names id arguments e s t ∧
      (∀ fault : Fault, fault.RefusesCall →
        (t.reply.1 = .error fault ↔ f.Refuses e id arguments fault)) ∧
      ∀ fault, f.Refuses e id arguments fault → t = ⟨(.error fault, f), e, s, []⟩ := by
  obtain ⟨t, ht, houtcome⟩ := hr.call_outcome f names id arguments e s
  have hrefused : ∀ fault, f.Refuses e id arguments fault →
      t = ⟨(.error fault, f), e, s, []⟩ := fun fault hrefuses => by
    have hcall := ht _ (Nat.le_refl _)
    rw [Functions.call_of_refuses hrefuses, Option.some_inj] at hcall
    exact hcall.symm
  refine ⟨t, ht, houtcome, fun fault hkind =>
    ⟨houtcome.refuses_of_error hr hkind, fun hrefuses => ?_⟩, hrefused⟩
  rw [hrefused fault hrefuses]

/-- Keeps the successor of `x` as `y`. -/
def successor : Runner Nat (List (String × Nat)) := fun _ _ state =>
  .done (("y", (state.lookup "x").getD 0 + 1) :: state)
    (.ok (.plain ((state.lookup "x").getD 0 + 1)))

theorem successor_onlyReads : successor.OnlyReads := fun _ _ => .done _ _

/-- Variables in a list, the one that was bound last in front. -/
def listed : Namespace Nat (List (String × Nat)) where
  bind name value state := (name, value) :: state
  lookup name state := state.lookup name

/-- Cell 0 takes `x`, and gives `y` and `x`. -/
def successorOnly : Functions :=
  Functions.setSignature {} ⟨0⟩ ⟨["x"], ["y", "x"]⟩

def oneCell : Engine Nat :=
  Engine.new.update ((∅ : Batch).insert ⟨0⟩ (.ofCode "y = x + 1"))

/-- The first call runs the cell twice and establishes its body. Without arguments it is refused. -/
theorem successor_call_contract :
    (∃ t, successorOnly.call successor 1 listed ⟨0⟩ [41] oneCell [] = some t ∧
      successorOnly.Outcome (successor.execute 1) listed ⟨0⟩ [41] oneCell [] t ∧
      t.reply.1 = .ok (.entries ⟨[(some ⟨"y"⟩, 42), (some ⟨"x"⟩, 41)]⟩) ∧
      t.reply.2.isEstablished ⟨0⟩ = true ∧ begun t.events = [⟨0⟩, ⟨0⟩]) ∧
    successorOnly.call successor 1 listed ⟨0⟩ [] oneCell [] =
      some ⟨(.error (.argumentCount ⟨0⟩ 1 0), successorOnly), oneCell, [], []⟩ := by
  have hsize : oneCell.cells.size = 1 := by decide +kernel
  constructor
  · obtain ⟨t, ht, hfound⟩ :
        ∃ t, successorOnly.call successor 1 listed ⟨0⟩ [41] oneCell [] = some t ∧
        decide (t.reply.1 = .ok (.entries ⟨[(some ⟨"y"⟩, 42), (some ⟨"x"⟩, 41)]⟩) ∧
          t.reply.2.isEstablished ⟨0⟩ = true ∧ begun t.events = [⟨0⟩, ⟨0⟩]) = true :=
      (Option.any_eq_true _ _).1 (by decide +kernel)
    obtain ⟨t', ht', houtcome, -⟩ :=
      successor_onlyReads.call_contract successorOnly listed ⟨0⟩ [41] oneCell []
    obtain rfl : t' = t := Option.some_inj.1 ((ht' 1 (Nat.le_of_eq hsize)).symm.trans ht)
    rw [hsize] at houtcome
    exact ⟨t', ht, houtcome, of_decide_eq_true hfound⟩
  · obtain ⟨t, ht, -, -, hrefused⟩ :=
      successor_onlyReads.call_contract successorOnly listed ⟨0⟩ [] oneCell []
    have hsignature : successorOnly.signature? ⟨0⟩ = some ⟨["x"], ["y", "x"]⟩ := by decide +kernel
    have hrefuses : successorOnly.Refuses oneCell ⟨0⟩ ([] : List Nat) (.argumentCount ⟨0⟩ 1 0) :=
      .otherNumber hsignature (by decide +kernel) (by decide)
    rw [ht 1 (Nat.le_of_eq hsize), hrefused _ hrefuses]

/-! ## 7. What the last execution sees -/

/-- **How a stale cell is executed with success**: its stored output is answered if that is always
so, and the runner has run its code otherwise. -/
theorem Runner.OnlyReads.execute_ok_of_stale {runner : Runner V σ} (hr : runner.OnlyReads)
    {limit : Nat} {id : CellId} {overrides : FlagOverrides} {e : Engine V} {s : σ}
    {t : Turn V σ (Except Fault (Output V))} {output : Output V} {cell : Cell V}
    (ht : runner.execute limit id overrides e s = some t) (hok : t.reply = .ok output)
    (hcell : e.cells[id]? = some cell) (hstale : cell.stale = true) :
    (cell.forceCached = true ∧ cell.output = some output ∧ t = ⟨.ok output, e, s, []⟩) ∨
    cell.forceCached = false ∧
      ∃ deeper run, perform (runFresh runner deeper) (runner.programOf id overrides e s cell)
      (e.beginRun id) s = some run ∧ run.reply = .ok output ∧ t.state = run.state ∧
      t.events = .step (.beginRun id) :: run.events ++
        [.step (.write ⟨id⟩ id output), .step (.resume e.executing)] := by
  obtain ⟨hnone, -⟩ | ⟨found, hfound, hcache, rfl⟩ | ⟨found, hfound, hcache, hrun⟩ :=
    executeWith_cases ht
  · rw [hcell] at hnone
    cases hnone
  all_goals
    obtain rfl : cell = found := Option.some_inj.1 (hcell.symm.trans hfound)
    rw [Cell.usesCache, hstale, Bool.not_true, Bool.or_false] at hcache
  · have hcached : e.cachedOutput id = .ok output := hok
    obtain ⟨-, hanswer⟩ | ⟨stored, hstored, hanswer⟩ := Engine.cachedOutput_cases hcell
    all_goals
      rw [hanswer] at hcached
      cases hcached
    exact .inl ⟨hcache, hstored, by rw [hanswer]⟩
  · obtain ⟨fault, rfl⟩ | ⟨deeper, _, run, _, -, -, hsame, hinside, -, -, -, hend⟩ :=
      hr.runFresh_cases hrun
    · cases hok
    obtain rfl := Option.some_inj.1 (hsame.symm.trans hcell)
    obtain ⟨value, hreply, rfl⟩ | ⟨failure, -, rfl⟩ := hend
    · cases hok
      exact .inr ⟨hcache, deeper, run, hinside, hreply, rfl, rfl⟩
    · cases hok

/-- **What an answer rests on.** If a call succeeds, then the arguments were bound, the cell was
made stale and executed, and this execution has run the code of the cell with the arguments bound,
or the cell always answers its stored output and nothing was run. -/
theorem Runner.OnlyReads.call_sees_arguments {runner : Runner V σ} (hr : runner.OnlyReads)
    (f : Functions) (names : Namespace V σ) (id : CellId) (arguments : List V) (e : Engine V)
    (s : σ) :
    ∃ t, (∀ limit, e.cells.size ≤ limit → f.call runner limit names id arguments e s = some t) ∧
      ∀ answer, t.reply.1 = .ok answer → ∃ signature e' s' earlier cell output during,
        let now := e'.apply (.edit (.invalidate id))
        let state := names.bound (signature.inputs.zip arguments) s'
        f.Accepts e id arguments signature ∧
          f.Opens (runner.execute e.cells.size) id e s e' s' earlier ∧
        now.cells[id]? = some cell ∧ cell.stale = true ∧
        Collected names id output t.state signature.outputs (.ok answer) ∧
        t.events = Functions.callEvents id (signature.inputs.zip arguments) earlier during ∧
        ((cell.forceCached = true ∧ cell.output = some output ∧ t.engine = now ∧ t.state = state ∧
          during = []) ∨ cell.forceCached = false ∧ ∃ deeper run,
            perform (runFresh runner deeper) (runner.programOf id {} now state cell)
              (now.beginRun id) state = some run ∧
            run.reply = .ok output ∧ t.state = run.state ∧
            during = .step (.beginRun id) :: run.events ++
              [.step (.write ⟨id⟩ id output), .step (.resume now.executing)]) := by
  obtain ⟨t, ht, houtcome⟩ := hr.call_outcome f names id arguments e s
  refine ⟨t, ht, fun answer hanswer => ?_⟩
  cases houtcome with
  | refused => cases hanswer
  | aborted => cases hanswer
  | failed => cases hanswer
  | @answered signature e' s' earlier last output reply haccepts hopens hlast hok hcollected =>
    cases hanswer
    have hframed : FreshRun.Framed (runner.execute e.cells.size) :=
      framed_executeWith (framed_runFresh hr _)
    have hpresent : e'.contains id = true :=
      ((hopens.frame hframed).contains id).trans haccepts.present
    obtain ⟨old, -, hstep⟩ := Engine.step_invalidate hpresent
    have hcell : (e'.apply (.edit (.invalidate id))).cells[id]? = some old.markStale := by
      rw [Engine.apply_of_ok hstep]
      exact ExtTreeMap.getElem?_insert_self
    refine ⟨signature, e', s', earlier, old.markStale, output, last.events, haccepts, hopens, hcell,
      rfl, hcollected, rfl, ?_⟩
    obtain ⟨hforced, hstored, rfl⟩ | ⟨hforced, hrun⟩ := hr.execute_ok_of_stale hlast hok hcell rfl
    · exact .inl ⟨hforced, hstored, rfl, rfl, rfl⟩
    · exact .inr ⟨hforced, hrun⟩

/-- A run of cell 0, which always answers its stored output otherwise. -/
def forcedRequest : Request where
  cell := ⟨0⟩
  batch := (∅ : Batch).insert ⟨0⟩ { Revision.ofCode "y = x + 1" with forceCached := true }

/-- The answer to a call of the cell with 41 after that, and the runs that the call has begun. -/
def forcedCall : Option (Except Fault (Answer Nat) × List CellId) :=
  (successor.request 1 forcedRequest .new []).bind fun before =>
    ((successorOnly.establish ⟨0⟩).call successor 1 listed ⟨0⟩ [41]
        before.engine before.state).map fun t =>
      (t.reply.1, begun t.events)

/-- The argument is bound, and the answer is that of the run before: `y` is 1 where `x` is 41. -/
example :
    forcedCall = some (.ok (.entries ⟨[(some ⟨"y"⟩, 1), (some ⟨"x"⟩, 41)]⟩), []) := by
  decide +kernel

end Notebook
