import Notebook.Proofs.Run.Freshness
import Notebook.Proofs.Run.Repetition

/-!
# What an execution touches

Executing a cell may run many others, since runs cause runs by reading. All that happens in
between is made of a few steps, and each of them concerns one cell: it begins or ends a run of
it. What the step does to the other cells is that a publication marks those stale which the
cell feeds at that moment. Hence

> **a cell of which no run has begun is as it was**, or it is stale and otherwise as it was, and
> it is stale if and only if a cell that feeds it has published.

What cells are told, the flags and the queue of deletions are left alone. This holds at
every moment of an execution, also if the execution fails, and a stale cell becomes good
by its own publication only.
-/

set_option autoImplicit false

namespace Notebook

open Std

variable {V σ : Type}

/-! ## 1. What is noted of an execution -/

/-- The event is neither an edit nor the binding of a variable. Runs that only read are made of
the others. -/
def Event.OfRun : Event V → Prop
  | .step (.edit _) => False
  | .bound _ _ => False
  | _ => True

/-- The cell whose run the step begins or ends. -/
def Step.subject? : Step V → Option CellId
  | .beginRun id => some id
  | .write _ id _ => some id
  | .failRun id => some id
  | _ => none

/-- A run that ends has begun. -/
theorem Orderly.subject_begun {before behind : List (Event V)} {s : Step V} {c : CellId}
    (h : Orderly [] (before ++ .step s :: behind)) (hsubject : s.subject? = some c) :
    .step (.beginRun c) ∈ before ++ [.step s] := by
  have hends : (openRuns [] before).head? = some c →
      .step (.beginRun c) ∈ before ++ [.step s] := fun htop =>
    List.mem_append_left _ ((mem_openRuns (List.mem_of_mem_head? htop)).resolve_left
      List.not_mem_nil)
  have hfits := h.fits
  cases s with
  | beginRun id =>
    cases hsubject
    exact List.mem_append_right _ List.mem_cons_self
  | write context id output =>
    cases hsubject
    exact hends hfits.1
  | failRun id =>
    cases hsubject
    exact hends hfits
  | edit operation | connect parent child | resume slot => cases hsubject

/-- Everything that is noted belongs to a run. -/
def Law.ofRuns : Law V :=
  .now fun _ event => event.OfRun

theorem Law.governs_ofRuns {runner : Runner V σ} (hr : runner.OnlyReads) :
    (Law.ofRuns (V := V)).Governs runner Command.Looks where
  toLasting := Law.lasting_now _
  asks request state := (hr request state).asks
  command _ hfresh _ hlooks := (Law.lasting_now _).composed.looks hfresh
    (fun _ _ => (Law.lasting_now _).obeys_step fun _ => trivial)
    (fun _ _ _ => (Law.lasting_now _).obeys_answered fun _ => trivial) hlooks
  beginRun _ _ := trivial
  failRun _ _ := trivial
  resume _ _ := trivial
  write _ _ _ _ _ _ _ _ _ _ _ := trivial

/-- **The notes of an execution** are those of runs, one inside another, and the engine is their
replay. -/
theorem Runner.OnlyReads.execute_notes {runner : Runner V σ} (hr : runner.OnlyReads) {limit : Nat}
    {id : CellId} {overrides : FlagOverrides} {e : Engine V} {s : σ}
    {t : Turn V σ (Except Fault (Output V))} (ht : runner.execute limit id overrides e s = some t) :
    t.engine = e.after t.events ∧ Orderly [] t.events ∧ ∀ event ∈ t.events, event.OfRun := by
  obtain ⟨hengine, hlaw⟩ :=
    (Law.lasting_now _).composed.executeWith ((Law.governs_ofRuns hr).runFresh limit) id
      overrides e s t ht
  have houtside : (Command.execute id overrides : Command V).FromOutside := trivial
  obtain ⟨cells, hordered⟩ := ordered_carryOut hr houtside limit e s
  refine ⟨hengine, hordered.orderly t ht, fun event hevent => ?_⟩
  obtain ⟨before, behind, hsplit⟩ := List.append_of_mem hevent
  exact hlaw before event behind hsplit

/-! ## 2. One step -/

namespace Engine

/-- The step publishes an output of a cell that feeds `c` at that moment. -/
def PublishesAbove (c : CellId) (e : Engine V) (s : Step V) : Prop :=
  ∃ context p output next, s = .write context p output ∧ e.write context p output = .ok next ∧
    e.graph.Feeds p c

/-- A cell that feeds `c` has published, in one of the events. -/
def PublishedAbove (c : CellId) : Engine V → List (Event V) → Prop :=
  Since (PublishesAbove c) fun _ _ => False

variable {e : Engine V} {events : List (Event V)} {s : Step V} {c : CellId} {cell : Cell V}

theorem publishedAbove_concat {event : Event V} : PublishedAbove c e (events ++ [event]) ↔
    (∃ s, event = .step s ∧ PublishesAbove c (e.after events) s) ∨ PublishedAbove c e events := by
  rw [PublishedAbove, since_concat]
  simp only [not_false_eq_true, implies_true, and_true]

/-- The cell is marked stale if the condition is met, and is left alone otherwise. -/
structure MarkedIf (condition : Prop) (c : CellId) (cell : Cell V) (e : Engine V) : Prop where
  marked : condition → e.cells[c]? = some cell.markStale
  kept : ¬ condition → e.cells[c]? = some cell

theorem MarkedIf.of_not {condition : Prop} (hcell : e.cells[c]? = some cell) (h : ¬ condition) :
    MarkedIf condition c cell e :=
  ⟨fun hmet => absurd hmet h, fun _ => hcell⟩

/-- A cell that is marked twice is marked. -/
theorem MarkedIf.trans {e' : Engine V} {first second : Prop} (h : MarkedIf first c cell e)
    (hnext : ∀ now, e.cells[c]? = some now → MarkedIf second c now e') :
    MarkedIf (second ∨ first) c cell e' := by
  by_cases hfirst : first
  · have hlater := hnext _ (h.marked hfirst)
    refine ⟨fun _ => ?_, fun hnot => absurd (.inr hfirst) hnot⟩
    by_cases hsecond : second
    · exact hlater.marked hsecond
    · exact hlater.kept hsecond
  · have hlater := hnext _ (h.kept hfirst)
    exact ⟨fun heither => hlater.marked (heither.resolve_right hfirst),
      fun hnot => hlater.kept (not_or.1 hnot).1⟩

/-- A step of a run leaves alone what cells are told, the queue of deletions and the flags. -/
theorem kept_of_run (hrun : (Event.step s).OfRun) (e : Engine V) :
    (∀ c, (e.apply s).told c = e.told c) ∧ (e.apply s).deleted = e.deleted ∧
      (e.apply s).flags = e.flags := by
  cases s with
  | edit operation => exact hrun.elim
  | beginRun id => exact ⟨e.told_beginRun id, rfl, rfl⟩
  | connect parent child => exact ⟨fun _ => rfl, rfl, rfl⟩
  | write context id output =>
    refine ⟨e.told_apply_write context id output, ?_⟩
    obtain h | ⟨cell, -, -, -, h⟩ := e.apply_write_cases context id output
    all_goals
      rw [h]
      exact ⟨rfl, rfl⟩
  | failRun id => exact ⟨e.told_failRun id, e.deleted_failRun id, e.flags_failRun id⟩
  | resume slot => exact ⟨fun _ => rfl, rfl, rfl⟩

/-- A publication for another cell. -/
theorem markedIf_write {context : Context} {id : CellId} {output : Output V} (hc : c ≠ id)
    (hcell : e.cells[c]? = some cell) :
    MarkedIf (PublishesAbove c e (.write context id output)) c cell
      (e.apply (.write context id output)) := by
  have hstep : e.step (.write context id output) = e.write context id output := rfl
  cases hwrite : e.write context id output with
  | error fault =>
    rw [apply_of_error (hstep.trans hwrite)]
    refine .of_not hcell ?_
    rintro ⟨_, _, _, next, hsame, hnext, -⟩
    cases hsame
    rw [hwrite] at hnext
    cases hnext
  | ok next =>
    obtain ⟨old, -, rfl⟩ := eq_publish_of_write hwrite
    have hafter : (e.publish id old output).cells[c]? =
        some (if c ∈ e.graph.descendants id then cell.markStale else cell) := by
      rw [getElem?_publish, if_neg hc, hcell, Option.map_some]
    rw [apply_of_ok (hstep.trans hwrite)]
    constructor
    · rintro ⟨_, _, _, _, hsame, -, hfeeds⟩
      cases hsame
      rw [hafter, if_pos (Graph.mem_descendants_iff.2 hfeeds)]
    · intro hnot
      rw [hafter, if_neg fun hfed =>
        hnot ⟨context, id, output, _, rfl, hwrite, Graph.mem_descendants_iff.1 hfed⟩]

/-- **A cell that the step is not about** is marked stale if a cell that feeds it publishes,
and is left alone otherwise. -/
theorem markedIf_of_run (hrun : (Event.step s).OfRun) (hother : s.subject? ≠ some c)
    (hcell : e.cells[c]? = some cell) : MarkedIf (PublishesAbove c e s) c cell (e.apply s) := by
  have hid : ∀ id, s.subject? = some id → c ≠ id := by
    rintro id hsubject rfl
    exact hother hsubject
  have hsilent : (e.apply s).cells[c]? = some cell →
      (∀ context id output, s ≠ .write context id output) →
      MarkedIf (PublishesAbove c e s) c cell (e.apply s) := fun hafter hs =>
    .of_not hafter fun ⟨context, p, output, _, hwrite, _⟩ => hs context p output hwrite
  cases s with
  | edit operation => exact hrun.elim
  | beginRun id =>
    refine hsilent ((e.getElem?_beginRun id c).trans ?_) (by simp)
    rw [if_neg (hid id rfl), hcell]
  | connect parent child => exact hsilent hcell (by simp)
  | write context id output => exact markedIf_write (hid id rfl) hcell
  | failRun id =>
    refine hsilent ((e.getElem?_failRun id c).trans ?_) (by simp)
    rw [if_neg (hid id rfl), hcell]
  | resume slot => exact hsilent hcell (by simp)

end Engine

/-! ## 3. An execution -/

/-- What the events leave alone: the set of cells and what they are told, the queue of deletions,
the flags, and, staleness apart, the cells of which no run has begun. -/
structure Engine.Footprint (e : Engine V) (events : List (Event V)) : Prop where
  told : ∀ c, (e.after events).told c = e.told c
  deleted : (e.after events).deleted = e.deleted
  flags : (e.after events).flags = e.flags
  others : ∀ c cell, e.cells[c]? = some cell → .step (.beginRun c) ∉ events →
    MarkedIf (PublishedAbove c e events) c cell (e.after events)

namespace Engine.Footprint

variable {e : Engine V} {events : List (Event V)}

theorem nil (e : Engine V) : e.Footprint [] where
  told _ := rfl
  deleted := rfl
  flags := rfl
  others _ _ hcell _ := .of_not hcell not_since_nil

/-- A note that is no step. -/
theorem note (h : e.Footprint events) {event : Event V} (hnote : event.step? = none) :
    e.Footprint (events ++ [event]) := by
  have hafter : e.after (events ++ [event]) = e.after events := by
    rw [after_append, after, List.filterMap_cons_none hnote]
    rfl
  refine ⟨?_, ?_, ?_, fun c cell hcell hnot => ?_⟩
  all_goals rw [hafter]
  · exact h.told
  · exact h.deleted
  · exact h.flags
  · have hno : PublishedAbove c e (events ++ [event]) ↔ PublishedAbove c e events := by
      rw [publishedAbove_concat, or_iff_right]
      rintro ⟨s, rfl, -⟩
      cases hnote
    rw [hno]
    exact h.others c cell hcell fun hmem => hnot (List.mem_append_left _ hmem)

/-- One more step of a run. -/
theorem step (h : e.Footprint events) {s : Step V} (hrun : (Event.step s).OfRun)
    (hbegun : ∀ c, s.subject? = some c → .step (.beginRun c) ∈ events ++ [.step s]) :
    e.Footprint (events ++ [.step s]) := by
  have hafter : e.after (events ++ [.step s]) = (e.after events).apply s := by
    rw [after_append]
    rfl
  obtain ⟨htold, hdeleted, hflags⟩ := kept_of_run hrun (e.after events)
  refine ⟨fun c => ?_, ?_, ?_, fun c cell hcell hnot => ?_⟩
  all_goals rw [hafter]
  · exact (htold c).trans (h.told c)
  · exact hdeleted.trans h.deleted
  · exact hflags.trans h.flags
  · have hstep : PublishedAbove c e (events ++ [.step s]) ↔
        PublishesAbove c (e.after events) s ∨ PublishedAbove c e events := by
      simp [publishedAbove_concat]
    have hbefore := h.others c cell hcell fun hmem => hnot (List.mem_append_left _ hmem)
    rw [hstep]
    -- A cell of which no run has begun is not the one that the step is about.
    exact hbefore.trans fun now hnow =>
      markedIf_of_run hrun (fun hsubject => hnot (hbegun c hsubject)) hnow

/-- **Any number of events of runs**, at every moment in their course. -/
theorem ofRuns (horderly : Orderly [] events) (hruns : ∀ event ∈ events, event.OfRun) :
    ∀ before later, events = before ++ later → e.Footprint before := by
  intro before
  induction before using List.reverseRecOn with
  | nil => exact fun _ _ => .nil e
  | append_singleton before event ih =>
    intro later hsplit
    rw [List.append_assoc] at hsplit
    have hbefore := ih _ hsplit
    have hrun : event.OfRun := hruns event (by simp [hsplit])
    cases event with
    | step s =>
      refine hbefore.step hrun fun c hsubject => ?_
      rw [hsplit] at horderly
      exact horderly.subject_begun hsubject
    | answered context id reply => exact hbefore.note rfl
    | bound name value => exact hrun.elim

end Engine.Footprint

/-- **A stale cell becomes good by its own publication only**, whatever the event is. -/
theorem Engine.publishes_of_refreshed {e : Engine V} {event : Event V} {c : CellId}
    {cell cell' : Cell V} (hcell : e.cells[c]? = some cell) (hstale : cell.stale = true)
    (hcell' : (e.after [event]).cells[c]? = some cell') (hfresh : cell'.stale = false) :
    ∃ output next, event = .step (.write ⟨c⟩ c output) ∧ e.write ⟨c⟩ c output = .ok next := by
  have hnot : ∀ old, e.cells[c]? = some old → old.stale = false → False := fun old hold hgood => by
    rw [hcell, Option.some_inj] at hold
    rw [← hold, hstale] at hgood
    cases hgood
  cases event with
  | step s =>
    obtain ⟨old, hold, hgood, -⟩ | ⟨⟨owner⟩, output, next, rfl, hwrite, -⟩ :=
      fresh_of_apply hcell' hfresh
    · exact (hnot old hold hgood).elim
    · obtain ⟨rfl, -⟩ := owner_of_write hwrite
      exact ⟨output, next, rfl, hwrite⟩
  | answered context id reply => exact (hnot cell' hcell' hfresh).elim
  | bound name value => exact (hnot cell' hcell' hfresh).elim

/-- **What an execution may touch**, at every moment of it, whether it succeeds or fails. -/
theorem Runner.OnlyReads.execution_footprint {runner : Runner V σ} (hr : runner.OnlyReads)
    (id : CellId) (overrides : FlagOverrides) (e : Engine V) (s : σ) :
    ∃ t, (∀ limit, e.cells.size ≤ limit → runner.execute limit id overrides e s = some t) ∧
      t.engine = e.after t.events ∧
      (∀ before later, t.events = before ++ later → e.Footprint before) ∧
      ∀ before event later, t.events = before ++ event :: later → ∀ (c : CellId) cell cell',
        (e.after before).cells[c]? = some cell → cell.stale = true →
        (e.after (before ++ [event])).cells[c]? = some cell' → cell'.stale = false →
        ∃ output next, event = .step (.write ⟨c⟩ c output) ∧
          (e.after before).write ⟨c⟩ c output = .ok next := by
  obtain ⟨t, ht⟩ := hr.execute_returns id overrides e s
  obtain ⟨hengine, horderly, hruns⟩ := hr.execute_notes (ht _ (Nat.le_refl _))
  refine ⟨t, ht, hengine, .ofRuns horderly hruns, ?_⟩
  intro before event later _ c cell cell' hcell hstale hcell' hfresh
  rw [Engine.after_append] at hcell'
  exact Engine.publishes_of_refreshed hcell hstale hcell' hfresh

/-- Cell 1 reads cell 0. Both have run, and then cell 0 was made stale. -/
def outdated : List (Command Nat) :=
  [.edit (.update ((∅ : Batch).insert ⟨0⟩ (.ofCode "a") |>.insert ⟨1⟩ (.ofCode "read 0"))),
    .execute ⟨1⟩ {}, .edit (.invalidate ⟨0⟩)]

/-- Executing cell 0 runs cell 0 only. Cell 1 is stale afterwards, since cell 0 feeds it and has
published. -/
theorem outdated_footprint :
    ∃ events e t cell, scripted.session 2 outdated .new () = some (events, e) ∧
    e.cells[(⟨1⟩ : CellId)]? = some cell ∧ cell.stale = false ∧
    scripted.execute 2 ⟨0⟩ {} e () = some t ∧
    begun t.events = [⟨0⟩] ∧ Engine.PublishedAbove ⟨1⟩ e t.events ∧
    t.engine.cells[(⟨1⟩ : CellId)]? = some cell.markStale := by
  obtain ⟨⟨events, e⟩, hsession, hlater⟩ :
      ∃ found, scripted.session 2 outdated .new () = some found ∧
      (decide (found.2.cells.size = 2) &&
        (found.2.cells[(⟨1⟩ : CellId)]?).any (fun cell => !cell.stale) &&
        (scripted.execute 2 ⟨0⟩ {} found.2 ()).any fun t => decide (begun t.events = [⟨0⟩]) &&
          (t.engine.cells[(⟨1⟩ : CellId)]?).any fun cell => cell.stale) = true :=
    (Option.any_eq_true _ _).1 (by decide +kernel)
  simp only [Bool.and_eq_true, decide_eq_true_eq, Option.any_eq_true, Bool.not_eq_true'] at hlater
  obtain ⟨⟨hsize, cell, hcell, hfresh⟩, t, ht, hbegun, cell', hcell', hstale⟩ := hlater
  obtain ⟨t', ht', hengine, hfootprint, -⟩ := scripted_onlyReads.execution_footprint ⟨0⟩ {} e ()
  obtain rfl : t' = t := Option.some_inj.1 ((ht' 2 (Nat.le_of_eq hsize)).symm.trans ht)
  have hmarked := (hfootprint t'.events [] (List.append_nil _).symm).others ⟨1⟩ cell hcell
      fun hmem => by
    have hbegun1 : (⟨1⟩ : CellId) ∈ begun t'.events := List.mem_filterMap.2 ⟨_, hmem, rfl⟩
    simp [hbegun] at hbegun1
  rw [← hengine] at hmarked
  have habove : Engine.PublishedAbove ⟨1⟩ e t'.events := by
    by_contra hnot
    have hsame := hmarked.kept hnot
    rw [hcell', Option.some_inj] at hsame
    rw [hsame, hfresh] at hstale
    cases hstale
  exact ⟨events, e, t', cell, hsession, hcell, hfresh, ht, hbegun, habove, hmarked.marked habove⟩

end Notebook
