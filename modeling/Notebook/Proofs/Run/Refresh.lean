import Notebook.Proofs.Run.HandBack
import Notebook.Proofs.Run.Nesting
import Notebook.Proofs.Run.Report

/-!
# What a request refreshes

A request that succeeds, and whose cascade reports nothing, has published for every cell that
updates itself and was downstream of the requested one when the cascade began. What was published
last stays good as long as nothing upstream publishes after it. So, for a runner that fails as
soon as one of its reads fails,

> **what such a request leaves stale was overtaken**: each of these cells stores, at the end, what
> it published last, or a cell upstream of it has published since.

The order of the cascade is fixed when it begins, so a cell can be overtaken. It is, by
a sibling that it declares and does not read: the sibling may come later in the walk,
and nobody visits a cell twice.
-/

set_option autoImplicit false

namespace Notebook

open Std

variable {V σ : Type}

/-! ## 1. Publications -/

def Published (events : List (Event V)) (c : CellId) : Prop :=
  ∃ output, .step (.write ⟨c⟩ c output) ∈ events

theorem not_published_nil (c : CellId) :
    ¬ Published ([] : List (Event V)) c := fun ⟨_, h⟩ => by cases h

theorem published_append {events later : List (Event V)} {c : CellId} :
    Published (events ++ later) c ↔ Published events c ∨ Published later c := by
  simp only [Published, List.mem_append, exists_or]

theorem published_write {id c : CellId} {output : Output V} :
    Published [.step (.write ⟨id⟩ id output)] c ↔ c = id := by
  simp only [Published, List.mem_singleton, Event.step.injEq, Step.write.injEq, Context.mk.injEq]
  constructor
  · rintro ⟨_, hc, -, -⟩
    exact hc
  · rintro rfl
    exact ⟨output, rfl, rfl, rfl⟩

/-- The cell has published, and at the end it is not stale and stores what it published last,
unless a cell upstream has published since. -/
def Refreshed (e : Engine V) (events : List (Event V)) (c : CellId) : Prop :=
  ∃ before output after, events = before ++ .step (.write ⟨c⟩ c output) :: after ∧
    ¬ Published after c ∧
    (e.Holds c (some output) ∨
      ∃ p, Published (.step (.write ⟨c⟩ c output) :: after) p ∧ e.graph.Feeds p c)

theorem Refreshed.behind {e : Engine V} {events : List (Event V)} {c : CellId}
    (h : Refreshed e events c) (earlier : List (Event V)) : Refreshed e (earlier ++ events) c := by
  obtain ⟨before, output, after, rfl, hlast, hgood⟩ := h
  exact ⟨earlier ++ before, output, after, by rw [List.append_assoc], hlast, hgood⟩

/-! ## 2. What runs without a failure refresh -/

/-- **From `e` to `e'` cells are refreshed.** No edge is lost. What is fresh stays as it is,
unless it or something upstream publishes, and whatever publishes is refreshed. Nothing else
becomes fresh, and whoever published is marked as having run. -/
structure Refreshes (e : Engine V) (events : List (Event V)) (e' : Engine V) : Prop where
  grows : ∀ p c, (p, c) ∈ e.graph → (p, c) ∈ e'.graph
  kept : ∀ c output, e.Holds c output → ¬ Published events c →
    e'.Holds c output ∨ ∃ p, Published events p ∧ e'.graph.Feeds p c
  refreshed : ∀ c, Published events c → Refreshed e' events c
  fresh : ∀ c, e'.Fresh c → e.Fresh c ∨ Published events c
  ran : ∀ c, e'.bears Cell.didRun c = true ↔ e.bears Cell.didRun c = true ∨ Published events c

namespace Refreshes

variable {e e' e'' : Engine V} {events later : List (Event V)}

/-- A step that publishes nothing, and after which the same cells are fresh and have run. -/
theorem still {event : Event V} (hsilent : ∀ c, ¬ Published [event] c)
    (hgrows : ∀ p c, (p, c) ∈ e.graph → (p, c) ∈ e'.graph)
    (hholds : ∀ c output, e'.Holds c output ↔ e.Holds c output)
    (hran : ∀ c, e'.bears Cell.didRun c = e.bears Cell.didRun c) : Refreshes e [event] e' where
  grows := hgrows
  kept c output hc _ := .inl ((hholds c output).2 hc)
  refreshed c hc := absurd hc (hsilent c)
  fresh c := by
    rintro ⟨output, hc⟩
    exact .inl ⟨output, (hholds c output).1 hc⟩
  ran c := by
    rw [hran, or_iff_left (hsilent c)]

theorem nothing (e : Engine V) : Refreshes e [] e where
  grows _ _ hedge := hedge
  kept _ _ hc _ := .inl hc
  refreshed c hc := absurd hc (not_published_nil c)
  fresh _ hc := .inl hc
  ran c := by rw [or_iff_left (not_published_nil c)]

/-- A publication is good unless the cell feeds itself, and what the cell feeds is overtaken. -/
theorem publication (e : Engine V) (id : CellId) (cell : Cell V) (output : Output V) :
    Refreshes e [.step (.write ⟨id⟩ id output)] (e.publish id cell output) where
  grows _ _ hedge := hedge
  kept c stored hc hsilent := by
    by_cases hfeeds : e.graph.Feeds id c
    · exact .inr ⟨id, published_write.2 rfl, hfeeds⟩
    · refine .inl (Engine.holds_publish.2 ⟨?_, hfeeds⟩)
      rwa [if_neg fun hid => hsilent (published_write.2 hid)]
  refreshed c hc := by
    rw [published_write] at hc
    subst hc
    refine ⟨[], output, [], rfl, not_published_nil c, ?_⟩
    by_cases hself : e.graph.Feeds c c
    · exact .inr ⟨c, published_write.2 rfl, hself⟩
    · exact .inl (Engine.holds_publish.2 ⟨if_pos rfl ▸ rfl, hself⟩)
  fresh c := by
    rintro ⟨stored, hc⟩
    obtain ⟨hc, -⟩ := Engine.holds_publish.1 hc
    by_cases hid : c = id
    · exact .inr (published_write.2 hid)
    · rw [if_neg hid] at hc
      exact .inl ⟨stored, hc⟩
  ran c := by
    rw [Engine.bears_publish (fun _ => rfl), published_write]
    by_cases hid : c = id
    · simp [hid, Cell.publish]
    · simp [hid]

theorem append (h : Refreshes e events e') (h' : Refreshes e' later e'') :
    Refreshes e (events ++ later) e'' where
  grows p c hedge := h'.grows p c (h.grows p c hedge)
  kept c output hc hsilent := by
    rw [published_append, not_or] at hsilent
    rcases h.kept c output hc hsilent.1 with hc | ⟨p, hp, hfeeds⟩
    · rcases h'.kept c output hc hsilent.2 with hc | ⟨p, hp, hfeeds⟩
      · exact .inl hc
      · exact .inr ⟨p, published_append.2 (.inr hp), hfeeds⟩
    · exact .inr ⟨p, published_append.2 (.inl hp), hfeeds.mono h'.grows⟩
  refreshed c hc := by
    -- The last publication of the cell is among the later ones, or none of those is its own.
    by_cases hlater : Published later c
    · exact (h'.refreshed c hlater).behind events
    · obtain ⟨before, output, after, rfl, hlast, hgood⟩ :=
        h.refreshed c ((published_append.1 hc).resolve_right hlater)
      refine ⟨before, output, after ++ later, by rw [List.append_assoc, List.cons_append], ?_, ?_⟩
      · rw [published_append]
        exact not_or.2 ⟨hlast, hlater⟩
      · rw [← List.cons_append]
        rcases hgood with hgood | ⟨p, hp, hfeeds⟩
        · rcases h'.kept c _ hgood hlater with hgood | ⟨p, hp, hfeeds⟩
          · exact .inl hgood
          · exact .inr ⟨p, published_append.2 (.inr hp), hfeeds⟩
        · exact .inr ⟨p, published_append.2 (.inl hp), hfeeds.mono h'.grows⟩
  fresh c hc := by
    rw [published_append]
    rcases h'.fresh c hc with hc | hc
    · exact (h.fresh c hc).imp_right .inl
    · exact .inr (.inr hc)
  ran c := by rw [h'.ran, h.ran, published_append, or_assoc]

end Refreshes

/-- Whatever happens without a failure refreshes cells. -/
theorem threaded_refreshes :
    Threaded (V := V) fun e events e' => Unfailing events → Refreshes e events e' where
  nothing e _ := .nothing e
  append h h' hgood := by
    obtain ⟨hfirst, hlater⟩ := unfailing_append.1 hgood
    exact (h hfirst).append (h' hlater)
  unknown _ _ := .still (by simp [Published]) (fun _ _ h => h) (fun _ _ => .rfl) fun _ => rfl
  itself _ _ := .still (by simp [Published]) (fun _ _ h => h) (fun _ _ => .rfl) fun _ => rfl
  read {e e' context id events} reply _ _ hinside hgood := by
    have hbefore : Refreshes e [.step (.connect id context.cell)] (e.connect id context.cell) :=
      .still (by simp [Published]) (fun _ _ h => Engine.mem_graph_connect.2 (.inr h))
        (fun _ _ => .rfl) fun _ => rfl
    have hafter : Refreshes e' [.answered context id reply] e' :=
      .still (by simp [Published]) (fun _ _ h => h) (fun _ _ => .rfl) fun _ => rfl
    exact (hbefore.append (hinside (unfailing_cons.1 (unfailing_append.1 hgood).1).2)).append hafter
  publish {e e' id cell events} output _ hinside hgood := by
    have hbegin : Refreshes e [.step (.beginRun id)] (e.beginRun id) := by
      refine .still (by simp [Published]) (fun _ _ h => h)
        (fun _ _ => Engine.holds_beginRun) fun c => ?_
      rw [Engine.bears_beginRun]
      split <;> rfl
    have hresume : Refreshes (e'.publish id cell output) [.step (.resume e.executing)]
        ((e'.publish id cell output).resume e.executing) :=
      .still (by simp [Published]) (fun _ _ h => h) (fun _ _ => .rfl) fun _ => rfl
    exact (hbegin.append (hinside (unfailing_cons.1 (unfailing_append.1 hgood).1).2)).append
      ((Refreshes.publication e' id cell output).append hresume)
  fail {e e' id cell events} _ _ hgood := absurd (by simp) (hgood id)

/-! ## 3. The walk -/

theorem Engine.ancestorRunning_of_idle {e : Engine V} (h : e.Idle) (id : CellId) :
    e.ancestorRunning id = false := by
  rw [ancestorRunning, List.any_eq_false]
  intro parent _
  rw [Bool.not_eq_true]
  exact h parent

/-- While no run is in progress, it is the turn of the cells that update themselves and have not
run. -/
theorem Engine.wantsUpdate_of_idle {e : Engine V} (h : e.Idle) {id : CellId} {cell : Cell V}
    (hcell : e.cells[id]? = some cell) : e.wantsUpdate id = (!cell.didRun && cell.autoUpdate) := by
  have hrunning : cell.running = false := (bears_of_cell hcell).symm.trans (h id)
  rw [wantsUpdate, hcell]
  dsimp only
  rw [hrunning, ancestorRunning_of_idle h id, Bool.not_false, Bool.true_and, Bool.true_and]

section

variable {runner : Runner V σ} {limit : Nat} {e : Engine V} {s : σ}

theorem Runner.Heeds.refreshes_runFresh (hr : runner.Heeds) {id : CellId}
    {overrides : FlagOverrides} {t : Turn V σ (Except Fault (Output V))}
    (ht : runFresh runner limit id overrides e s = some t) (hok : t.reply.isOk = true) :
    Refreshes e t.events t.engine :=
  threaded_refreshes.runFresh hr.onlyReads limit id overrides e s t ht
    (unfailing_runFresh hr limit id overrides e s t ht hok)

theorem Runner.Heeds.refreshes_executeWith (hr : runner.Heeds) {id : CellId}
    {overrides : FlagOverrides} {t : Turn V σ (Except Fault (Output V))}
    (ht : executeWith (runFresh runner limit) id overrides e s = some t)
    (hok : t.reply.isOk = true) : Refreshes e t.events t.engine :=
  threaded_refreshes.executeWith (threaded_refreshes.runFresh hr.onlyReads limit) id overrides e s t
    ht (unfailing_executeWith (unfailing_runFresh hr limit) id overrides e s t ht hok)

theorem Runner.OnlyReads.published_of_runFresh (hr : runner.OnlyReads) {id : CellId}
    {overrides : FlagOverrides} {t : Turn V σ (Except Fault (Output V))}
    (ht : runFresh runner limit id overrides e s = some t) (hok : t.reply.isOk = true) :
    Published t.events id := by
  obtain ⟨fault, rfl⟩ | ⟨_, _, run, _, -, -, -, -, -, -, -, hend⟩ := hr.runFresh_cases ht
  · cases hok
  obtain ⟨output, -, rfl⟩ | ⟨failure, -, rfl⟩ := hend
  · exact ⟨output, by simp⟩
  · cases hok

theorem Runner.OnlyReads.published_of_executeWith (hr : runner.OnlyReads) (hunforced : e.Unforced)
    {id : CellId} (hstale : ¬ e.Fresh id) {overrides : FlagOverrides}
    {t : Turn V σ (Except Fault (Output V))}
    (ht : executeWith (runFresh runner limit) id overrides e s = some t)
    (hok : t.reply.isOk = true) : Published t.events id := by
  obtain ⟨-, rfl⟩ | ⟨cell, hcell, hcache, rfl⟩ | ⟨cell, -, -, hrun⟩ := executeWith_cases ht
  · cases hok
  · rw [Cell.usesCache_eq_not_stale (hunforced id cell hcell), Bool.not_eq_true'] at hcache
    exact absurd ⟨cell.output, cell, hcell, hcache, rfl⟩ hstale
  · exact hr.published_of_runFresh hrun hok

/-- **A walk that reports nothing** refreshes cells, and every listed cell that updates itself
has run at the end. It is needed that no run is in progress, and that the listed cells which
have not run yet are stale. -/
theorem Runner.Heeds.ran_of_visitWith (hr : runner.Heeds) {ids : List CellId}
    (hunforced : e.Unforced) (hidle : e.Idle)
    (hstale : ∀ c ∈ ids, e.Fresh c → e.bears Cell.didRun c = true) {t : Turn V σ (List CellId)}
    (ht : visitWith (runFresh runner limit) ids e s = some t) (hnone : t.reply = []) :
    Refreshes e t.events t.engine ∧
      ∀ c ∈ ids, ∀ cell, e.cells[c]? = some cell → cell.autoUpdate = true →
      t.engine.bears Cell.didRun c = true := by
  induction ids generalizing e s t with
  | nil =>
    cases ht
    exact ⟨.nothing e, fun c hc => by cases hc⟩
  | cons id ids ih =>
    rw [visitWith_cons] at ht
    split at ht
    · rename_i hturn
      obtain ⟨first, hfirst, ht⟩ := Option.bind_eq_some_iff.1 ht
      obtain ⟨rest, hrest, rfl⟩ := Option.map_eq_some_iff.1 ht
      obtain ⟨hok, hnone⟩ : first.reply.isOk = true ∧ rest.reply = [] := by
        cases hreply : first.reply with
        | ok output => simpa [hreply, Except.isOk, Except.toBool] using hnone
        | error fault => simp [hreply] at hnone
      have hframe := framed_executeWith (framed_runFresh hr.onlyReads limit) id {} e s first hfirst
      have hvisit := hr.refreshes_executeWith hfirst hok
      have hidle' := hidle.of_running
        (Act.composed_handedBack.executeWith (hr.onlyReads.honest.handedBack_runFresh limit) id
          {} e s first hfirst).running
      have hstale' : ∀ c ∈ ids, first.engine.Fresh c → first.engine.bears Cell.didRun c = true := by
        intro c hc hfresh
        refine (hvisit.ran c).2 ((hvisit.fresh c hfresh).imp_left ?_)
        exact hstale c (List.mem_cons_of_mem _ hc)
      obtain ⟨hwalk, hran⟩ := ih (hunforced.of_told hframe.told) hidle' hstale' hrest hnone
      refine ⟨hvisit.append hwalk, fun c hc cell hcell hauto => ?_⟩
      rcases List.mem_cons.1 hc with rfl | hc
      · -- It was the turn of the cell, so it had not run, and was stale.
        have hnot : ¬ e.Fresh c := by
          intro hfresh
          obtain ⟨waiting, hwaiting, hnotRun, -⟩ := Engine.exists_cell_of_wantsUpdate hturn
          have hmark := hstale c List.mem_cons_self hfresh
          rw [Engine.bears_of_cell hwaiting, hnotRun] at hmark
          exact Bool.noConfusion hmark
        have hpublished := hr.onlyReads.published_of_executeWith hunforced hnot hfirst hok
        exact (hwalk.ran c).2 (.inl ((hvisit.ran c).2 (.inr hpublished)))
      · obtain ⟨cell', hcell', hsame⟩ := Engine.exists_cell_of_told (hframe.told c) hcell
        exact hran c hc cell' hcell' (by rw [Cell.autoUpdate_eq_of_told hsame, hauto])
    · rename_i hturn
      obtain ⟨hwalk, hran⟩ := ih hunforced hidle
        (fun c hc => hstale c (List.mem_cons_of_mem _ hc)) ht hnone
      refine ⟨hwalk, fun c hc cell hcell hauto => ?_⟩
      rcases List.mem_cons.1 hc with rfl | hc
      · -- It is not the turn of the cell although it updates itself, so it has run.
        rw [Engine.wantsUpdate_of_idle hidle hcell, hauto, Bool.and_true, Bool.not_eq_true,
          Bool.not_eq_false'] at hturn
        refine (hwalk.ran c).2 (.inl ?_)
        rw [Engine.bears_of_cell hcell, hturn]
      · exact hran c hc cell hcell hauto

/-! ## 4. The request -/

/-- What is noted before the requested cell is run. -/
def Engine.preparation (e : Engine V) (batch : Batch) : List (Event V) :=
  [.step (.edit (.update batch)), .step (.edit (.addLinks (e.update batch).declarations)),
    .step (.edit .resetDidRun)]

theorem Engine.after_preparation (e : Engine V) (batch : Batch) :
    e.after (e.preparation batch) = e.prepared batch :=
  rfl

/-- The run of the requested cell, which was marked stale first. What it feeds is stale when it
has published, so to mark it again changes nothing that is fresh. -/
theorem Runner.Heeds.refreshes_runRequestedWith (hr : runner.Heeds) {request : Request}
    {t : Turn V σ (Except Fault (Output V))}
    (ht : runRequestedWith (runFresh runner limit) request e s = some t)
    (hok : t.reply.isOk = true) :
    ∃ start later, t.events = .step (.edit (.invalidate request.cell)) :: later ∧
      (∀ mark : Cell V → Bool, (∀ cell, mark cell.markStale = mark cell) →
        ∀ c, start.bears mark c = e.bears mark c) ∧
      Refreshes start later t.engine ∧
      Refreshes t.engine [.step (.edit (.markDescendantsStale request.cell))]
        (t.engine.markDescendantsStale request.cell) ∧
      ∀ c, t.engine.bears Cell.running c = true → start.bears Cell.running c = true := by
  obtain ⟨fault, rfl⟩ | ⟨cell, run, hcell, hrun, rfl⟩ := runRequestedWith_cases ht
  · cases hok
  refine ⟨_, run.events, rfl, fun mark hmark c => Engine.bears_insert_markStale hmark hcell c,
    hr.refreshes_runFresh hrun hok, ?_,
    (hr.onlyReads.honest.handedBack_runFresh limit _ _ _ s run hrun).running⟩
  obtain ⟨fault, rfl⟩ | ⟨_, _, inside, last, -, -, -, -, -, -, -, hend⟩ :=
    hr.onlyReads.runFresh_cases hrun
  · cases hok
  obtain ⟨output, -, rfl⟩ | ⟨failure, -, rfl⟩ := hend
  · -- What the cell feeds is stale since it has published, so no fresh cell is marked.
    refine .still (by simp [Published]) (fun _ _ h => h) (fun c stored => ?_) fun c =>
      Engine.bears_markDescendantsStale (fun _ => rfl) _ _ c
    refine Engine.holds_markDescendantsStale.trans (and_iff_left_of_imp fun hc => ?_)
    exact (Engine.holds_publish.1 hc).2
  · cases hok

/-- The cascade that follows, if it reports nothing. -/
theorem Runner.Heeds.refreshes_followUpWith (hr : runner.Heeds) {id : CellId} {output : Output V}
    (hunforced : e.Unforced) (hidle : e.Idle) {t : Turn V σ (Option Fault)}
    (ht : followUpWith (runFresh runner limit) id (.ok output) e s = some t)
    (hnone : t.reply = none) :
    ∃ later, t.events = .step (.edit (.markDescendantsStale id)) :: later ∧
      Refreshes (e.markDescendantsStale id) later t.engine ∧
      ∀ c cell, e.graph.Feeds id c → (e.markDescendantsStale id).cells[c]? = some cell →
        cell.autoUpdate = true → t.engine.bears Cell.didRun c = true := by
  rw [followUpWith_apply, cascadeWith_apply] at ht
  obtain ⟨cascade, hcascade, rfl⟩ := Option.map_eq_some_iff.1 ht
  obtain ⟨walk, hwalk, rfl⟩ := Option.map_eq_some_iff.1 hcascade
  have hreport : walk.reply = [] := by
    rw [← List.isEmpty_iff]
    by_contra hsome
    simp [hsome] at hnone
  have hstale : ∀ c ∈ (e.markDescendantsStale id).graph.descendantOrder id,
      (e.markDescendantsStale id).Fresh c →
      (e.markDescendantsStale id).bears Cell.didRun c = true := by
    rintro c hc ⟨stored, hholds⟩
    exact absurd (Graph.mem_descendantOrder_iff.1 hc) (Engine.holds_markDescendantsStale.1 hholds).2
  have hidle' : (e.markDescendantsStale id).Idle := fun c => by
    rw [Engine.bears_markDescendantsStale fun _ => rfl]
    exact hidle c
  obtain ⟨hrefreshes, hran⟩ :=
    hr.ran_of_visitWith (hunforced.of_told (e.told_markDescendantsStale id)) hidle'
    hstale hwalk hreport
  exact ⟨walk.events, rfl, hrefreshes, fun c cell hfeeds =>
    hran c (Graph.mem_descendantOrder_iff.2 hfeeds) cell⟩

/-- A requested run that succeeds, and a cascade that reports nothing. From the run to the end
cells are refreshed, and the cells downstream that update themselves have run at the end. -/
theorem Runner.Heeds.refreshes_requested (hr : runner.Heeds) {request : Request}
    (hunforced : e.Unforced) (hidle : e.Idle) {first : Turn V σ (Except Fault (Output V))}
    {second : Turn V σ (Option Fault)} {output : Output V}
    (hfirst : runRequestedWith (runFresh runner limit) request e s = some first)
    (hok : first.reply = .ok output)
    (hsecond : followUpWith (runFresh runner limit) request.cell first.reply first.engine
      first.state = some second)
    (hnone : second.reply = none) :
    ∃ start run later, first.events = .step (.edit (.invalidate request.cell)) :: run ∧
      second.events = .step (.edit (.markDescendantsStale request.cell)) :: later ∧
      Refreshes start (run ++ second.events) second.engine ∧
      (∀ c, start.bears Cell.didRun c = e.bears Cell.didRun c) ∧
      ∀ c cell, first.engine.graph.Feeds request.cell c → second.engine.cells[c]? = some cell →
        cell.autoUpdate = true → second.engine.bears Cell.didRun c = true := by
  rw [hok] at hsecond
  have hframe := frame_of_runRequestedWith (framed_runFresh hr.onlyReads limit) hfirst
  have hframe' := frame_of_followUpWith (framed_runFresh hr.onlyReads limit) hsecond
  obtain ⟨start, run, hrun, hstart, hrequested, hmark, hrunning⟩ :=
    hr.refreshes_runRequestedWith hfirst (by rw [hok]; rfl)
  have hidle' : first.engine.Idle := by
    refine hidle.of_running fun c hc => ?_
    rw [← hstart _ fun _ => rfl]
    exact hrunning c hc
  obtain ⟨later, hlater, hcascade, hran⟩ :=
    hr.refreshes_followUpWith (hunforced.of_told hframe.told) hidle' hsecond hnone
  refine ⟨start, run, later, hrun, hlater, ?_, hstart _ fun _ => rfl,
    fun c cell hfeeds hcell hauto => ?_⟩
  · rw [hlater]
    exact hrequested.append (hmark.append hcascade)
  · have htold : (first.engine.markDescendantsStale request.cell).told c = second.engine.told c :=
      (first.engine.told_markDescendantsStale request.cell c).trans (hframe'.told c).symm
    obtain ⟨cell', hcell', hsame⟩ := Engine.exists_cell_of_told htold hcell
    exact hran c cell' hfeeds hcell' (by rw [Cell.autoUpdate_eq_of_told hsame, hauto])

/-- **What such a request leaves stale was overtaken.** The runner fails when a read fails, and
after the batch no cell always answers its stored output and no run is in progress. If the request
succeeds and its cascade reports nothing, then every cell that updates itself, and that is
downstream of the requested one when the cascade begins, is refreshed. -/
theorem Runner.Heeds.request_refreshes (hr : runner.Heeds) {request : Request}
    (hunforced : (e.update request.batch).Unforced) (hidle : (e.update request.batch).Idle)
    {t : Turn V σ (Report V)} (ht : runner.request limit request e s = some t) {output : Output V}
    (hok : t.reply.result = .ok output) (hnone : t.reply.cascade = none) :
    ∃ before after, t.events =
      before ++ .step (.edit (.markDescendantsStale request.cell)) :: after ∧
      ∀ c cell, t.engine.cells[c]? = some cell → cell.autoUpdate = true →
        (e.after before).graph.Feeds request.cell c → Refreshed t.engine t.events c := by
  rw [Runner.request, requestWith_apply] at ht
  obtain ⟨first, hfirst, ht⟩ := Option.bind_eq_some_iff.1 ht
  obtain ⟨second, hsecond, rfl⟩ := Option.map_eq_some_iff.1 ht
  have hidle' : (e.prepared request.batch).Idle :=
    fun c => (Engine.bears_resetDidRun _ c).trans (hidle c)
  obtain ⟨start, run, later, hrun, hlater, hrefreshes, hstart, hran⟩ := hr.refreshes_requested
    (hunforced.of_told (e.told_prepared request.batch)) hidle' hfirst hok hsecond hnone
  have hdropped : Refreshes second.engine [.step (.edit .dropDeleted)] second.engine.dropDeleted :=
    .still (by simp [Published]) (fun _ _ h => h) (fun _ _ => .rfl) fun _ => rfl
  have hbegun : e.after (e.preparation request.batch ++ first.events) = first.engine := by
    rw [Engine.after_append, Engine.after_preparation]
    exact (Act.compositional_faithful.runRequestedWith (faithful_runFresh runner limit) request _ _
      _ hfirst).symm
  refine ⟨e.preparation request.batch ++ first.events, later ++ [.step (.edit .dropDeleted)], ?_,
    fun c cell hcell hauto hfeeds => ?_⟩
  · simp [Engine.preparation, hlater]
  · rw [hbegun] at hfeeds
    -- The cell has run in the end, and had not when the request began, so it has published.
    have hnotRun : start.bears Cell.didRun c = false := by
      rw [hstart, Engine.prepared, Engine.bears_resetDidRun]
      simp [Engine.bears, Cell.resetDidRun]
    have hpublished : Published (run ++ second.events) c := by
      refine ((hrefreshes.ran c).1 (hran c cell hfeeds hcell hauto)).resolve_left ?_
      rw [hnotRun]
      exact Bool.false_ne_true
    have hrefreshed :=
      ((hrefreshes.append hdropped).refreshed c (published_append.2 (.inl hpublished))).behind
      (e.preparation request.batch ++ [.step (.edit (.invalidate request.cell))])
    simpa [Engine.preparation, hrun] using hrefreshed

end

/-! ## 5. Overtaken by a sibling -/

/-- The request of cell 0, with the two siblings behind it. -/
def siblingsRequest (first second : String) : Request where
  cell := ⟨0⟩
  batch := siblings first second

theorem Engine.unforced_and_idle {e : Engine V}
    (h : (e.cells.toList.all fun entry => !entry.2.forceCached && !entry.2.running) = true) :
    e.Unforced ∧ e.Idle := by
  have hcells : ∀ (c : CellId) (cell : Cell V), e.cells[c]? = some cell →
      cell.forceCached = false ∧ cell.running = false := by
    intro c cell hcell
    have hentry := List.all_eq_true.1 h (c, cell)
      (ExtTreeMap.mem_toList_iff_getElem?_eq_some.2 hcell)
    simpa using hentry
  refine ⟨fun c cell hcell => (hcells c cell hcell).1, fun c => ?_⟩
  rw [bears, Option.any_eq_false]
  intro cell hcell
  simp [(hcells c cell hcell).2]

/-- Cell 1 reads cell 2, and so cell 2 is run inside its run. Both are refreshed. -/
theorem siblings_request_refreshes :
    ∃ t, scripted.request 3 (siblingsRequest "read 2" "read 0") .new () = some t ∧
    t.reply.result = .ok (.plain 1) ∧ t.reply.cascade = none ∧
    ∃ before after, t.events = before ++ .step (.edit (.markDescendantsStale ⟨0⟩)) :: after ∧
      ∀ c cell, t.engine.cells[c]? = some cell → cell.autoUpdate = true →
        (Engine.new.after before).graph.Feeds ⟨0⟩ c → Refreshed t.engine t.events c := by
  obtain ⟨t, ht, hreply⟩ :
      ∃ t, scripted.request 3 (siblingsRequest "read 2" "read 0") .new () = some t ∧
      decide (t.reply.result = .ok (.plain 1) ∧ t.reply.cascade = none) = true :=
    (Option.any_eq_true _ _).1 (by decide +kernel)
  obtain ⟨hok, hnone⟩ := of_decide_eq_true hreply
  obtain ⟨hunforced, hidle⟩ :
      ((Engine.new (V := Nat)).update (siblingsRequest "read 2" "read 0").batch).Unforced ∧
      ((Engine.new (V := Nat)).update (siblingsRequest "read 2" "read 0").batch).Idle :=
    Engine.unforced_and_idle (by decide +kernel)
  exact ⟨t, ht, hok, hnone, scripted_heeds.request_refreshes hunforced hidle ht hok hnone⟩

/-- **Overtaken by a sibling**: cell 1 declares cell 2, does not read it, and is visited first.
The request succeeds and its cascade reports nothing, and cell 1 is stale. -/
theorem sibling_overtakes : scripted.Heeds ∧
    ((Engine.new (V := Nat)).update (siblingsRequest "read 0" "read 0").batch).Unforced ∧
    ((Engine.new (V := Nat)).update (siblingsRequest "read 0" "read 0").batch).Idle ∧
    ∃ t cell, scripted.request 3 (siblingsRequest "read 0" "read 0") .new () = some t ∧
      t.reply.result = .ok (.plain 1) ∧ t.reply.cascade = none ∧ t.engine.graph.Feeds ⟨0⟩ ⟨1⟩ ∧
      t.engine.cells[(⟨1⟩ : CellId)]? = some cell ∧ cell.autoUpdate = true ∧ cell.stale = true := by
  obtain ⟨hunforced, hidle⟩ :
      ((Engine.new (V := Nat)).update (siblingsRequest "read 0" "read 0").batch).Unforced ∧
      ((Engine.new (V := Nat)).update (siblingsRequest "read 0" "read 0").batch).Idle :=
    Engine.unforced_and_idle (by decide +kernel)
  obtain ⟨t, ht, hlater⟩ :
      ∃ t, scripted.request 3 (siblingsRequest "read 0" "read 0") .new () = some t ∧
      (decide (t.reply.result = .ok (.plain 1) ∧ t.reply.cascade = none ∧
        ⟨1⟩ ∈ t.engine.graph.descendants ⟨0⟩) &&
        (t.engine.cells[(⟨1⟩ : CellId)]?).any fun cell => cell.autoUpdate && cell.stale) = true :=
    (Option.any_eq_true _ _).1 (by decide +kernel)
  simp only [Bool.and_eq_true, decide_eq_true_eq, Option.any_eq_true,
    Graph.mem_descendants_iff] at hlater
  obtain ⟨⟨hok, hnone, hfeeds⟩, cell, hcell, hauto, hstale⟩ := hlater
  exact ⟨scripted_heeds, hunforced, hidle, t, cell, ht, hok, hnone, hfeeds, hcell, hauto, hstale⟩

end Notebook
