import Notebook.Proofs.Run.Order
import Notebook.Proofs.Run.Replay

/-!
# Histories

What a notebook goes through from its beginning, as a list of calls from outside any run. A
property that holds of a new engine, and that every call keeps, holds of every engine with a
history.
-/

set_option autoImplicit false

namespace Notebook

variable {V σ : Type}

/-! ## 1. What one call keeps -/

/-- What is asked from outside is composed of runs and edits. -/
theorem Act.Sequential.carryOut {holds : ∀ {α : Type}, Act V σ α → Prop} (h : Act.Sequential holds)
    {fresh : FreshRun V σ} (hfresh : ∀ id overrides, holds (fresh id overrides))
    {command : Command V} (houtside : command.FromOutside) : holds (carryOut fresh command) := by
  cases command with
  | edit operation => exact h.edit operation
  | inspect => exact h.engine
  | read context id => exact houtside.elim
  | write context id output => exact houtside.elim
  | execute id overrides => exact h.executeWith hfresh id overrides
  | cascade id => exact h.cascadeWith hfresh id
  | request request => exact h.requestWith hfresh request

/-- What every edit keeps is kept by a sequence of acts that keep it. -/
theorem Act.sequential_keeps {holds : Engine V → Prop}
    (hedit : ∀ operation e, holds e → holds (e.apply (.edit operation))) :
    Act.Sequential (V := V) (σ := σ) fun act => ∀ e s t, holds e → act e s = some t →
      holds t.engine where
  reply value e s t h ht := by
    cases ht
    exact h
  engine e s t h ht := by
    cases ht
    exact h
  state e s t h ht := by
    cases ht
    exact h
  modifyState f e s t h ht := by
    cases ht
    exact h
  edit operation e s t h ht := by
    cases ht
    exact hedit operation e h
  bind hact hnext e s t h ht := by
    obtain ⟨first, hfirst, second, hsecond, rfl⟩ := Act.bind_eq_some.1 ht
    exact hnext _ _ _ second (hact e s first h hfirst) hsecond

/-! ## 2. Histories -/

/-- **The engines that calls lead to** from the one at the start, with what was noted on the way.
Every call is allowed for the engine it is made with. The runner begins each call in any state. -/
inductive Runner.History (runner : Runner V σ) (allowed : Engine V → Command V → Prop)
    (start : Engine V) :
    List (Event V) → Engine V → Prop
  | start : History runner allowed start [] start
  | call {events : List (Event V)} {e : Engine V} {command : Command V} {limit : Nat} {state : σ}
      {t : Turn V σ command.Reply} (before : History runner allowed start events e)
        (hallowed : allowed e command)
      (ht : carryOut (runFresh runner limit) command e state = some t) :
      History runner allowed start (events ++ t.events) t.engine

namespace Runner.History

variable {runner : Runner V σ} {allowed : Engine V → Command V → Prop} {start e : Engine V}
  {events : List (Event V)}

/-- An invariant of the calls. -/
theorem induct {holds : Engine V → Prop} (hstart : holds start)
    (hcall : ∀ e command limit state t, holds e → allowed e command →
      carryOut (runFresh runner limit) command e state = some t → holds t.engine)
    (h : runner.History allowed start events e) : holds e := by
  induction h with
  | start => exact hstart
  | call _ hallowed ht ih => exact hcall _ _ _ _ _ ih hallowed ht

/-- The engine is the replay of all that was noted. -/
theorem eq_replay (h : runner.History allowed start events e) :
    e = start.replay (events.filterMap Event.step?) := by
  induction h with
  | start => rfl
  | @call events e command limit state t _ _ ht ih =>
    have hturn := faithful_carryOut runner limit command e state t ht
    rw [hturn, ih, Engine.replay, Engine.replay, ← List.foldl_append, List.filterMap_append]
    rfl

/-- From outside, the events are orderly and no run is left in progress. -/
theorem orderly (hr : runner.OnlyReads)
    (hallowed : ∀ e command, allowed e command → command.FromOutside)
    (h : runner.History allowed start events e) : Orderly [] events ∧ openRuns [] events = [] := by
  induction h with
  | start => exact ⟨trivial, rfl⟩
  | call _ hcommand ht ih =>
    obtain ⟨horderly, hclosed⟩ := ih
    obtain ⟨cells, hordered⟩ := ordered_carryOut hr (hallowed _ _ hcommand) _ _ _
    refine ⟨orderly_append.2 ⟨horderly, ?_⟩, ?_⟩
    · rw [hclosed]
      exact hordered.orderly _ ht
    · rw [openRuns_append, hclosed]
      exact hordered.closed _ ht

end Runner.History

/-! ## 3. Sessions -/

/-- Calls one after the other, each with the state of the runner that the one before has left:
what is noted, and the engine in the end. -/
def Runner.session (runner : Runner V σ) (limit : Nat) :
    List (Command V) → Engine V → σ → Option (List (Event V) × Engine V)
  | [], e, _ => some ([], e)
  | command :: commands, e, s =>
    (carryOut (runFresh runner limit) command e s).bind fun t =>
      (runner.session limit commands t.engine t.state).map fun rest => (t.events ++ rest.1, rest.2)

/-- A session is a history. -/
theorem Runner.History.append_session {runner : Runner V σ} {allowed : Engine V → Command V → Prop}
    {start e e' : Engine V} {events later : List (Event V)}
    (h : runner.History allowed start events e) {commands : List (Command V)}
    (hallowed : ∀ command ∈ commands, ∀ e, allowed e command) {limit : Nat} {s : σ}
    (hsession : runner.session limit commands e s = some (later, e')) :
    runner.History allowed start (events ++ later) e' := by
  induction commands generalizing events e s later with
  | nil =>
    cases hsession
    rw [List.append_nil]
    exact h
  | cons command commands ih =>
    obtain ⟨t, ht, hlater⟩ := Option.bind_eq_some_iff.1 hsession
    obtain ⟨⟨rest, last⟩, hrest, hpair⟩ := Option.map_eq_some_iff.1 hlater
    cases hpair
    rw [← List.append_assoc]
    exact ih (h.call (hallowed command List.mem_cons_self e) ht)
      (fun other hother => hallowed other (List.mem_cons_of_mem _ hother)) hrest

end Notebook
