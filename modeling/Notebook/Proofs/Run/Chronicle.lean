import Notebook.Proofs.Run.History

/-!
# Laws of what is noted

The events of a history are its chronicle. Some of them never occur alone: a read is answered, and
a publication ends a run that has begun. A *law* says of one event what stands before it and
behind it, given the engine at the beginning. A law that is not broken by more events, earlier or
later ones, is checked where the events are noted:

> **a history complies with a law** if its calls do, and a call does if the commands of the runner
> do, and if what opens and ends a run does.

What a chronicle is mostly asked is whether something was done and not undone since. This is
`Since`.
-/

set_option autoImplicit false

namespace Notebook

variable {V σ α β : Type}

/-! ## 1. Laws -/

/-- What is said of an event, given the engine at the beginning, the events before it and those
behind it. -/
abbrev Law (V : Type) : Type := Engine V → List (Event V) → Event V → List (Event V) → Prop

namespace Law

variable {law : Law V} {e : Engine V} {events later : List (Event V)}

/-- More events do not break the law. -/
structure Lasting (law : Law V) : Prop where
  earlier : ∀ e first before event behind, law (e.after first) before event behind →
    law e (first ++ before) event behind
  later : ∀ e before event behind last, law e before event behind →
    law e before event (behind ++ last)

/-- A law that asks for nothing but the engine at the moment of the event. -/
def now (complies : Engine V → Event V → Prop) : Law V :=
  fun e before event _ => complies (e.after before) event

theorem lasting_now (complies : Engine V → Event V → Prop) : (now complies).Lasting where
  earlier e first before event behind h := by
    rw [now, Engine.after_append]
    exact h
  later e before event behind last h := h

/-- Every event complies with the law. -/
def Holds (law : Law V) (e : Engine V) (events : List (Event V)) : Prop :=
  ∀ before event behind, events = before ++ event :: behind → law e before event behind

theorem holds_nil (law : Law V) (e : Engine V) : law.Holds e [] := by
  intro before event behind hsplit
  simp at hsplit

theorem Lasting.cons (hlaw : law.Lasting) {event : Event V} (hevent : law e [] event later)
    (hlater : law.Holds (e.after [event]) later) : law.Holds e (event :: later) := by
  intro before other behind hsplit
  cases before with
  | nil =>
    cases hsplit
    exact hevent
  | cons first before =>
    cases hsplit
    exact hlaw.earlier e [event] before other behind (hlater before other behind rfl)

/-- More events that comply with the law, in view of those before them. -/
theorem Lasting.extend (hlaw : law.Lasting) (h : law.Holds e events)
    (hlater : ∀ before event behind, later = before ++ event :: behind →
      law e (events ++ before) event behind) : law.Holds e (events ++ later) := by
  intro before event behind hsplit
  -- The event is one of the later ones, or the first of them, or one of those that were there.
  obtain ⟨between, rfl, hrest⟩ | ⟨between, rfl, hrest⟩ := List.append_eq_append_iff.1 hsplit
  · exact hlater between event behind hrest
  · obtain ⟨rfl, rfl⟩ | ⟨between, rfl, rfl⟩ := List.cons_eq_append_iff.1 hrest
    · have hfirst := hlater [] event behind rfl
      rwa [List.append_nil, List.append_nil] at hfirst
    · exact hlaw.later e before event between later (h before event between rfl)

theorem Lasting.append (hlaw : law.Lasting) (h : law.Holds e events)
    (hlater : law.Holds (e.after events) later) : law.Holds e (events ++ later) :=
  hlaw.extend h fun before event behind hsplit =>
    hlaw.earlier e events before event behind (hlater _ _ _ hsplit)

theorem Lasting.concat (hlaw : law.Lasting) (h : law.Holds e events) {event : Event V}
    (hevent : law e events event []) : law.Holds e (events ++ [event]) := by
  refine hlaw.extend h fun before other behind hsplit => ?_
  cases before with
  | nil =>
    cases hsplit
    rwa [List.append_nil]
  | cons first before => simp at hsplit

/-- **What every event keeps holds at every moment.** The moments are those between two events. -/
theorem Holds.induct (h : law.Holds e events) {holds : List (Event V) → Prop} (hstart : holds [])
    (hevent : ∀ before event behind, law e before event behind → holds before →
      holds (before ++ [event])) : ∀ before later, events = before ++ later → holds before := by
  intro before
  induction before using List.reverseRecOn with
  | nil => exact fun _ _ => hstart
  | append_singleton before event ih =>
    intro later hsplit
    rw [List.append_assoc] at hsplit
    exact hevent before event later (h before event later hsplit) (ih _ hsplit)

end Law

/-! ## 2. Acts that comply -/

/-- Whatever the act notes complies with the law. -/
def Act.Obeys (law : Law V) (act : Act V σ α) : Prop :=
  ∀ e s t, act e s = some t → t.engine = e.after t.events ∧ law.Holds e t.events

/-- Whichever cell is run, what is noted complies with the law. -/
def FreshRun.Obeys (law : Law V) (fresh : FreshRun V σ) : Prop :=
  ∀ id overrides, (fresh id overrides).Obeys law

section

variable {law : Law V}

theorem Act.obeys_of_silent {act : Act V σ α}
    (h : ∀ e s t, act e s = some t → t.engine = e ∧ t.events = []) : act.Obeys law := by
  intro e s t ht
  obtain ⟨hengine, hevents⟩ := h e s t ht
  rw [hevents]
  exact ⟨hengine, law.holds_nil e⟩

namespace Law.Lasting

theorem obeys_bind (hlaw : law.Lasting) {act : Act V σ α} {next : α → Act V σ β}
    (hact : act.Obeys law) (hnext : ∀ value, (next value).Obeys law) :
    (act >>= next).Obeys law := by
  intro e s t ht
  obtain ⟨first, hfirst, second, hsecond, rfl⟩ := Act.bind_eq_some.1 ht
  obtain ⟨hengine, hholds⟩ := hact e s first hfirst
  obtain ⟨hengine', hholds'⟩ := hnext _ _ _ second hsecond
  rw [hengine] at hengine' hholds'
  refine ⟨?_, hlaw.append hholds hholds'⟩
  rw [Turn.events_behind, Engine.after_append]
  exact hengine'

theorem composed (hlaw : law.Lasting) :
    Act.Composed (V := V) (σ := σ) fun act => act.Obeys law where
  reply value := Act.obeys_of_silent fun e s t h => by
    cases h
    exact ⟨rfl, rfl⟩
  engine := Act.obeys_of_silent fun e s t h => by
    cases h
    exact ⟨rfl, rfl⟩
  state := Act.obeys_of_silent fun e s t h => by
    cases h
    exact ⟨rfl, rfl⟩
  modifyState f := Act.obeys_of_silent fun e s t h => by
    cases h
    exact ⟨rfl, rfl⟩
  bind := hlaw.obeys_bind

theorem obeys_step (hlaw : law.Lasting) {st : Step V} (h : ∀ e, law e [] (.step st) []) :
    (Act.step st : Act V σ _).Obeys law := by
  intro e s t ht
  cases ht
  exact ⟨rfl, hlaw.concat (law.holds_nil e) (h e)⟩

theorem obeys_answered (hlaw : law.Lasting) {context : Context} {id : CellId}
    {reply : Except Fault (Output V)} (h : ∀ e, law e [] (.answered context id reply) []) :
    (Act.note (.answered context id reply) : Act V σ _).Obeys law := by
  intro e s t ht
  cases ht
  exact ⟨rfl, hlaw.concat (law.holds_nil e) (h e)⟩

/-- A request registers the declarations of the moment when its batch has been applied. -/
theorem obeys_requestWith (hlaw : law.Lasting) {fresh : FreshRun V σ} (hfresh : fresh.Obeys law)
    (hdeclare : ∀ e before, law e before (.step (.edit (.addLinks (e.after before).declarations)))
      [])
    (hedit : ∀ operation : Edit, operation.OfRequest →
      (∀ declared, operation ≠ .addLinks declared) → ∀ e, law e [] (.step (.edit operation)) [])
    (request : Request) : (requestWith fresh request).Obeys law := by
  intro e s t ht
  rw [requestWith_apply] at ht
  obtain ⟨first, hfirst, ht⟩ := Option.bind_eq_some_iff.1 ht
  obtain ⟨second, hsecond, rfl⟩ := Option.map_eq_some_iff.1 ht
  have hstep : ∀ (events : List (Event V)) (operation : Edit), operation.OfRequest →
      (∀ declared, operation ≠ .addLinks declared) → law.Holds e events →
      law.Holds e (events ++ [.step (.edit operation)]) := by
    intro events operation hoperation hother hevents
    exact hlaw.append hevents (hlaw.concat (law.holds_nil _) (hedit operation hoperation hother _))
  -- The batch is applied, then the declarations of that moment are registered, and
  -- then it is forgotten who ran.
  have hupdate : law.Holds e [.step (.edit (.update request.batch))] :=
    hstep [] (.update request.batch) trivial (by simp) (law.holds_nil e)
  have hregister : law.Holds e [.step (.edit (.update request.batch)),
      .step (.edit (.addLinks (e.update request.batch).declarations))] :=
    hlaw.concat hupdate (hdeclare e _)
  have hprepared : law.Holds e [.step (.edit (.update request.batch)),
      .step (.edit (.addLinks (e.update request.batch).declarations)),
        .step (.edit .resetDidRun)] :=
    hstep _ .resetDidRun trivial (by simp) hregister
  obtain ⟨hengine, hrun⟩ :=
    hlaw.composed.runRequestedWith hfresh (hlaw.obeys_step (hedit _ trivial (by simp))) _
      _ first hfirst
  obtain ⟨hengine', hfollow⟩ :=
    hlaw.composed.followUpWith hfresh (hlaw.obeys_step (hedit _ trivial (by simp))) _ _ _
      second hsecond
  rw [hengine] at hfollow hengine'
  refine ⟨?_, hstep _ .dropDeleted trivial (by simp) (hlaw.append (hlaw.append hprepared hrun) ?_)⟩
  · rw [Engine.after_append, Engine.after_append, Engine.after_append]
    exact congrArg Engine.dropDeleted hengine'
  · rw [Engine.after_append]
    exact hfollow

end Law.Lasting

/-! ## 3. Runs -/

/-- In each run the runner asks for commands of this kind only. -/
def Runner.Asks (runner : Runner V σ) (kind : Command V → Prop) : Prop :=
  ∀ request state, (runner ⟨request.cell⟩ request state).Asks kind

/-- The command leaves the notebook alone: it looks at the engine or reads. -/
def Command.Looks : Command V → Prop
  | .inspect => True
  | .read _ _ => True
  | _ => False

theorem Program.OnlyReads.asks {context : Context} {program : Program V σ α}
    (h : program.OnlyReads context) : program.Asks Command.Looks := by
  induction h with
  | done state value => exact .done state value
  | inspect _ ih => exact .ask trivial ih
  | read _ ih => exact .ask trivial ih

theorem Act.Composed.looks {holds : ∀ {α : Type}, Act V σ α → Prop} (h : Act.Composed holds)
    {fresh : FreshRun V σ} (hfresh : ∀ id overrides, holds (fresh id overrides))
    (hconnect : ∀ parent child, holds (Act.step (.connect parent child)))
    (hanswered : ∀ context id reply, holds (Act.note (.answered context id reply)))
    {command : Command V} (hlooks : command.Looks) : holds (carryOut fresh command) := by
  cases command with
  | inspect => exact h.engine
  | read context id => exact h.readWith hfresh (hconnect _ _) (hanswered context id)
  | _ => exact hlooks.elim

/-- **A law for the runs of a runner.** The commands that the runner asks for comply with it, and
so does what opens and what ends a run. -/
structure Law.Governs (law : Law V) (runner : Runner V σ) (kind : Command V → Prop) :
    Prop extends law.Lasting where
  asks : runner.Asks kind
  command : ∀ fresh : FreshRun V σ, fresh.Obeys law →
    ∀ command, kind command → (carryOut fresh command).Obeys law
  beginRun : ∀ e id, law e [] (.step (.beginRun id)) []
  failRun : ∀ e id, law e [] (.step (.failRun id)) []
  resume : ∀ e slot, law e [] (.step (.resume slot)) []
  /-- The publication at the end of a run. -/
  write : ∀ limit id overrides e s cell run output, e.cells[id]? = some cell →
    perform (runFresh runner limit) (runner.programOf id overrides e s cell) (e.beginRun id) s =
      some run →
    run.reply = .ok output →
      law e (.step (.beginRun id) :: run.events) (.step (.write ⟨id⟩ id output)) []

namespace Law.Governs

variable {runner : Runner V σ} {kind : Command V → Prop}

theorem concluded (h : law.Governs runner kind) {limit : Nat} {id : CellId}
    {overrides : FlagOverrides} {e : Engine V} {s : σ} {cell : Cell V}
    {run : Turn V σ (Except RunFailure (Output V))} (hcell : e.cells[id]? = some cell)
    (hrun : perform (runFresh runner limit) (runner.programOf id overrides e s cell)
      (e.beginRun id) s = some run)
    (hinside : law.Holds (e.beginRun id) run.events) :
    law.Holds e (run.concluded id e.executing).events := by
  have hlaw := h.toLasting
  have hbegin : law.Holds e [.step (.beginRun id)] :=
    hlaw.concat (law.holds_nil e) (h.beginRun e id)
  have hinside : law.Holds e (.step (.beginRun id) :: run.events) := hlaw.append hbegin hinside
  have hend : ∀ events st, (∀ e, law e [] (.step st) []) → law.Holds e events →
      law.Holds e (events ++ [.step st]) :=
    fun events st hst hevents => hlaw.append hevents (hlaw.concat (law.holds_nil _) (hst _))
  rw [Turn.concluded]
  cases hreply : run.reply with
  | ok output =>
    have hwritten := hlaw.concat hinside
      (h.write limit id overrides e s cell run output hcell hrun hreply)
    have hdone := hend _ (.resume e.executing) (fun e => h.resume e _) hwritten
    rwa [List.append_assoc] at hdone
  | error failure =>
    have hfailed := hend _ (.failRun id) (fun e => h.failRun e _) hinside
    have hdone := hend _ (.resume e.executing) (fun e => h.resume e _) hfailed
    rwa [List.append_assoc] at hdone

/-- However deep runs nest. -/
theorem runFresh (h : law.Governs runner kind) (limit : Nat) :
    FreshRun.Obeys law (runFresh runner limit) := by
  have hfaithful := fun limit id overrides => faithful_runFresh (V := V) runner limit id overrides
  have hholds : ∀ id overrides e s t, Notebook.runFresh runner limit id overrides e s = some t →
      law.Holds e t.events := by
    refine runFresh_induct (fun _ _ e _ _ => law.holds_nil e) ?_ limit
    intro limit ih id overrides e s cell run hcell hrun
    have hobeys : FreshRun.Obeys law
        (Notebook.runFresh runner limit) := fun id overrides e s t ht =>
      ⟨hfaithful limit id overrides e s t ht, ih id overrides e s t ht⟩
    have hprogram := h.asks ⟨id, cell.runnableCode, e.flags.override overrides⟩ s
    obtain ⟨-, hinside⟩ := h.toLasting.composed.perform (h.command _ hobeys) hprogram _ _ _ hrun
    exact h.concluded hcell hrun hinside
  intro id overrides e s t ht
  exact ⟨hfaithful limit id overrides e s t ht, hholds id overrides e s t ht⟩

end Law.Governs

end

/-! ## 4. Histories -/

namespace Runner.History

variable {runner : Runner V σ} {allowed : Engine V → Command V → Prop} {start e : Engine V}
  {events : List (Event V)}

theorem eq_after (h : runner.History allowed start events e) : e = start.after events :=
  h.eq_replay

/-- **A history complies with a law** if its calls do. -/
theorem obeys {law : Law V} (hlaw : law.Lasting)
    (hcall : ∀ e command limit state t before, runner.History allowed start before e →
      allowed e command → carryOut (runFresh runner limit) command e state = some t →
    law.Holds e t.events)
    (h : runner.History allowed start events e) : law.Holds start events := by
  induction h with
  | start => exact law.holds_nil start
  | call before hallowed ht ih =>
    refine hlaw.append ih ?_
    rw [← before.eq_after]
    exact hcall _ _ _ _ _ _ before hallowed ht

end Runner.History

/-! ## 5. Done and not undone -/

/-- A step did it, and no step has undone it since. -/
def Since (did undid : Engine V → Step V → Prop) (start : Engine V) (events : List (Event V)) :
    Prop :=
  ∃ earlier s later, events = earlier ++ .step s :: later ∧ did (start.after earlier) s ∧
    ∀ before other behind, later = before ++ .step other :: behind →
      ¬ undid (start.after (earlier ++ .step s :: before)) other

section

variable {did undid : Engine V → Step V → Prop} {start : Engine V} {events : List (Event V)}

theorem not_since_nil : ¬ Since did undid start [] := by
  rintro ⟨earlier, s, later, hsplit, -⟩
  simp at hsplit

/-- One more event: either it is done now, or it was done before and is not undone now. -/
theorem since_concat {event : Event V} : Since did undid start (events ++ [event]) ↔
    (∃ s, event = .step s ∧ did (start.after events) s) ∨
      Since did undid start events ∧ ∀ s, event = .step s → ¬ undid (start.after events) s := by
  constructor
  · rintro ⟨earlier, s, later, hsplit, hdid, hkept⟩
    cases later using List.reverseRecOn with
    | nil =>
      obtain ⟨rfl, hevent⟩ := List.append_inj' hsplit rfl
      exact .inl ⟨s, List.singleton_inj.1 hevent, hdid⟩
    | append_singleton later last =>
      rw [← List.cons_append, ← List.append_assoc] at hsplit
      obtain ⟨rfl, hevent⟩ := List.append_inj' hsplit rfl
      obtain rfl := List.singleton_inj.1 hevent
      refine .inr ⟨⟨earlier, s, later, rfl, hdid, fun before other behind hlater => ?_⟩,
        fun other hother => ?_⟩
      · exact hkept before other (behind ++ [event]) (by rw [hlater, List.append_assoc]; rfl)
      · exact hkept later other [] (by rw [hother])
  · rintro (⟨s, rfl, hdid⟩ | ⟨⟨earlier, s, later, rfl, hdid, hkept⟩, hnot⟩)
    · exact ⟨events, s, [], rfl, hdid, fun before other behind hsplit => by simp at hsplit⟩
    · refine ⟨earlier, s, later ++ [event], by rw [List.append_assoc]; rfl, hdid, ?_⟩
      intro before other behind hsplit
      cases behind using List.reverseRecOn with
      | nil =>
        obtain ⟨rfl, hevent⟩ := List.append_inj' hsplit rfl
        exact hnot other (List.singleton_inj.1 hevent)
      | append_singleton behind last =>
        rw [← List.cons_append, ← List.append_assoc] at hsplit
        exact hkept before other behind (List.append_inj' hsplit rfl).1

/-- Whether something was done and not undone may be told in other words, as far as the law goes. -/
theorem Law.Holds.since_iff {law : Law V} (h : law.Holds start events)
    {did' undid' : Engine V → Step V → Prop}
    (hsame : ∀ before s behind, law start before (.step s) behind →
      (did (start.after before) s ↔ did' (start.after before) s) ∧
    (undid (start.after before) s ↔ undid' (start.after before) s)) :
    ∀ before later, events = before ++ later →
      (Since did undid start before ↔ Since did' undid' start before) := by
  refine h.induct (iff_of_false not_since_nil not_since_nil)
    fun before event behind hevent hbefore => ?_
  rw [since_concat, since_concat, hbefore]
  refine or_congr (exists_congr fun s => and_congr_right ?_)
    (and_congr_right fun _ => forall_congr' fun s => ?_)
  · rintro rfl
    exact (hsame before s behind hevent).1
  · refine imp_congr_right ?_
    rintro rfl
    exact not_congr (hsame before s behind hevent).2

end

end Notebook
