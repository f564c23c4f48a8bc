import Notebook.Proofs.Run.Settled

/-!
# Requests without glitches

A cascade goes through the descendants of a cell level by level. A cell may be visited before all
cells that it reads are up to date, and then these are run first, inside its run. Still, with
runs that read what is declared,

> **no cell is run twice in a request**, and no run is handed a value that is replaced
> before the request is over.

The run of the requested cell settles what is upstream of it, and the cascade settles what is
downstream.
-/

set_option autoImplicit false

namespace Notebook

open Std

variable {V σ : Type}

/-! ## 1. Requests -/

section

variable {runner : Runner V σ} {e : Engine V} {s : σ}

/-- Visits that report no failure settle things, if nothing is off. -/
theorem settles_visitWith (hr : runner.OnlyReads) {limit : Nat} {ids : List CellId}
    (hground : Grounded runner (fun _ => False) e) (hclosed : e.Closed fun _ => False)
    {t : Turn V σ (List CellId)} (ht : visitWith (runFresh runner limit) ids e s = some t)
    (hreply : t.reply = []) :
    Settles (fun _ => False) e t.events t.engine := by
  induction ids generalizing e s t with
  | nil =>
    cases ht
    exact .refl hclosed
  | cons id ids ih =>
    rw [visitWith_cons] at ht
    split at ht
    · obtain ⟨first, hfirst, ht⟩ := Option.bind_eq_some_iff.1 ht
      obtain ⟨rest, hrest, rfl⟩ := Option.map_eq_some_iff.1 ht
      cases hfirstReply : first.reply with
      | error fault => simp [hfirstReply] at hreply
      | ok output =>
        simp only [hfirstReply] at hreply
        have hproduces := produces_executeWith (produces_runFresh hr limit) hground hclosed
          not_false hfirst hfirstReply
        have hgraph := still_executeWith (still_runFresh hr limit) id
          {} e s first hground.toDeclared hfirst
        have htold := (framed_executeWith (framed_runFresh hr limit) id {} e s first hfirst).told
        exact hproduces.trans (ih (t := rest) (hground.of_told hgraph htold)
          hproduces.closed hrest hreply)
    · exact ih hground hclosed ht hreply

/-- The run of a requested cell, which was marked stale before. What the cell feeds is
off until the run is over. -/
theorem settles_runRequestedWith (hr : runner.OnlyReads) {limit : Nat} {request : Request}
    (hground : Grounded runner (fun _ => False) e) (hclosed : e.Closed fun _ => False)
    {t : Turn V σ (Except Fault (Output V))} {output : Output V}
    (ht : runRequestedWith (runFresh runner limit) request e s = some t)
    (hreply : t.reply = .ok output) :
    ∃ start, Settles (e.graph.Feeds request.cell) start t.events t.engine := by
  obtain ⟨fault, rfl⟩ | ⟨cell, run, hcell, hrun, rfl⟩ := runRequestedWith_cases ht
  · cases hreply
  generalize hstart : ({ e with cells := e.cells.insert request.cell cell.markStale } : Engine V) =
    start at hrun
  have hgraph : start.graph = e.graph := hstart ▸ rfl
  have hholds : ∀ c stored, start.Holds c stored ↔
      c ≠ request.cell ∧ e.Holds c stored := fun c stored =>
    hstart ▸ Engine.holds_insert_markStale
  have hdown : ∀ p c, e.graph.Feeds request.cell p → (p, c) ∈ e.graph →
      e.graph.Feeds request.cell c :=
    fun p c hp hedge => hp.tail hedge
  have hstale : ¬ start.Fresh request.cell := by
    rintro ⟨stored, hstored⟩
    exact ((hholds _ _).1 hstored).1 rfl
  have hground' : Grounded runner (e.graph.Feeds request.cell) start := by
    have htold : ∀ c, start.told c = e.told c := hstart ▸ Engine.told_insert_markStale hcell
    exact ⟨hground.toDeclared.of_told hgraph htold, hground.unforced.of_told htold, hgraph ▸ hdown⟩
  have hclosed' : start.Closed (e.graph.Feeds request.cell) := by
    rintro p c ⟨stored, hstored⟩ hoff hedge
    rw [hgraph] at hedge
    obtain ⟨other, hother⟩ := hclosed p c ⟨stored, ((hholds _ _).1 hstored).2⟩ not_false hedge
    refine ⟨other, (hholds _ _).2 ⟨?_, hother⟩⟩
    rintro rfl
    exact hoff (.single hedge)
  cases hcycle : e.graph.hasCycle with
  | true =>
    rw [runFresh_of_cycle runner request.cell request.overrides start s limit
      (hgraph ▸ hcycle)] at hrun
    cases hrun
    cases hreply
  | false =>
    have hproduces := produces_runFresh hr limit _ _ _ _ _ run output hground' hclosed'
      (Graph.not_feeds_self hcycle request.cell) hstale hrun hreply
    exact ⟨start, (Settles.edit hclosed' (.invalidate request.cell)).trans hproduces.toSettles⟩

/-- What follows the run: what the cell feeds is made stale and then updated, and nothing is off
any more. -/
theorem settles_followUpWith (hr : runner.OnlyReads) {limit : Nat} {id : CellId} {output : Output V}
    (hground : Grounded runner (fun _ => False) e) (hclosed : e.Closed (e.graph.Feeds id))
    {t : Turn V σ (Option Fault)}
    (ht : followUpWith (runFresh runner limit) id (.ok output) e s = some t)
    (hreply : t.reply = none) :
    Settles (fun _ => False) (e.markDescendantsStale id) t.events t.engine := by
  rw [followUpWith_apply, cascadeWith_apply, Option.map_map] at ht
  obtain ⟨visited, hvisited, rfl⟩ := Option.map_eq_some_iff.1 ht
  have hfailures : visited.reply = [] := by
    cases hvisitedReply : visited.reply with
    | nil => rfl
    | cons c cs => simp [hvisitedReply] at hreply
  have hmarked : Grounded runner (fun _ => False) (e.markDescendantsStale id) :=
    hground.of_told rfl (e.told_markDescendantsStale id)
  have hclosed' : (e.markDescendantsStale id).Closed fun _ => False := by
    rintro p c ⟨stored, hstored⟩ - hedge
    obtain ⟨hstored, hoff⟩ := Engine.holds_markDescendantsStale.1 hstored
    obtain ⟨other, hother⟩ := hclosed p c ⟨stored, hstored⟩ hoff hedge
    exact ⟨other, Engine.holds_markDescendantsStale.2 ⟨hother, fun hp => hoff (hp.tail hedge)⟩⟩
  have hvisits := settles_visitWith hr hmarked hclosed' hvisited hfailures
  exact (Settles.edit hclosed' (.markDescendantsStale id)).trans hvisits

end

/-- Nothing is off when the requested cell is about to be run. -/
theorem Engine.Consistent.closed_prepared {e : Engine V} {batch : Batch}
    (h : (e.update batch).Consistent) (hexact : e.Exact) :
    (e.prepared batch).Closed fun _ => False := by
  rintro p c ⟨stored, hstored⟩ - hedge
  have hstored : (e.update batch).Holds c stored := holds_resetDidRun.1 hstored
  obtain ⟨other, hother⟩ := h.closed (hexact.update batch) p c ⟨stored, hstored⟩ not_false hedge
  exact ⟨other, holds_resetDidRun.2 hother⟩

/-- **Requests are free of glitches.** The runner reads what cells declare and nothing else, the
notebook has come about by calls from outside, and after the batch of the request no cell always
answers its stored output and no fresh cell has a stale one upstream. If the requested cell and
the cascade succeed, then the code of each cell is run at most once, and every value that was
handed to a run by a read is the view of the output that the cell stores in the end. -/
theorem Runner.OnlyReads.glitch_free {runner : Runner V σ} (hr : runner.OnlyReads)
    {flags : RunFlags} {events : List (Event V)} {e : Engine V}
    (h : runner.History runner.Permits (.withFlags flags) events e) {request : Request}
    (hreads : runner.ReadsInputs (e.update request.batch))
    (hunforced : (e.update request.batch).Unforced)
    (hconsistent : (e.update request.batch).Consistent) {limit : Nat} {state : σ}
    {t : Turn V σ (Report V)} (ht : runner.request limit request e state = some t)
    {output : Output V} (hresult : t.reply.result = .ok output)
    (hcascade : t.reply.cascade = none) :
    (begun t.events).Nodup ∧
      ∀ (context : Context) (id : CellId) (value : Output V),
        .answered context id (.ok value) ∈ t.events →
        ∃ cell stored, t.engine.cells[id]? = some cell ∧ cell.output = some stored ∧
          value = stored.view := by
  have hexact : e.Exact := hr.exact h
  have ht : requestWith (runFresh runner limit) request e state = some t := ht
  rw [requestWith_apply] at ht
  obtain ⟨first, hfirst, ht⟩ := Option.bind_eq_some_iff.1 ht
  obtain ⟨second, hsecond, rfl⟩ := Option.map_eq_some_iff.1 ht
  have hresult : first.reply = .ok output := hresult
  have hcascade : second.reply = none := hcascade
  have hground : Grounded runner (fun _ => False) (e.prepared request.batch) :=
    ⟨hexact.declared_prepared hreads, hunforced.of_told (e.told_prepared request.batch),
      fun _ _ hp _ => hp⟩
  have hclosed := hconsistent.closed_prepared hexact
  have hgraph := graph_of_runRequestedWith hr hground.toDeclared hfirst
  have htold := (frame_of_runRequestedWith (framed_runFresh hr limit) hfirst).told
  obtain ⟨start, hrun⟩ := settles_runRequestedWith hr hground hclosed hfirst hresult
  rw [← hgraph] at hrun
  rw [hresult] at hsecond
  have hfollow := settles_followUpWith hr (hground.of_told hgraph htold) hrun.closed
    hsecond hcascade
  -- What was settled before the cascade is not made stale by the marks that come before it.
  have hmarked : ∀ c stored, ¬ first.engine.graph.Feeds request.cell c →
      first.engine.Holds c stored →
      (first.engine.markDescendantsStale request.cell).Holds c
        stored := fun c stored hoff hstored =>
    Engine.holds_markDescendantsStale.2 ⟨hstored, hoff⟩
  constructor
  · show (begun (_ ++ first.events ++ second.events ++ _)).Nodup
    simp only [begun_append, begun_cons_edit, begun_nil, List.nil_append, List.append_nil,
      List.nodup_append]
    refine ⟨hrun.once, hfollow.once, ?_⟩
    rintro c hc d hd rfl
    obtain ⟨hoff, -, stored, hstored⟩ := hrun.ran c hc
    exact (hfollow.ran c hd).2.1 ⟨stored, hmarked c stored hoff hstored⟩
  · intro context id value hanswer
    have hstored : ∃ stored, second.engine.Holds id (some stored) ∧ value = stored.view := by
      simp only [List.mem_append, List.mem_cons, reduceCtorEq, List.not_mem_nil, or_false,
        false_or] at hanswer
      rcases hanswer with hanswer | hanswer
      · obtain ⟨hoff, stored, hstored, hvalue⟩ := hrun.answers context id value hanswer
        exact ⟨stored, hfollow.kept id _ not_false (hmarked id _ hoff hstored), hvalue⟩
      · exact (hfollow.answers context id value hanswer).2
    obtain ⟨stored, ⟨cell, hcell, -, houtput⟩, hvalue⟩ := hstored
    exact ⟨cell, stored, hcell, houtput, hvalue⟩

/-! ## 2. A ladder -/

/-- Adds what is read to the total, cell by cell, and fails with the first read that fails. -/
def sumReads (context : Context) (total : Nat) :
    List CellId → Program Nat Unit (Except RunFailure (Output Nat))
  | [] => .done () (.ok (.plain total))
  | id :: ids => .ask () (.read context id) fun _ reply =>
    match reply with
    | .ok (.plain value) => sumReads context (total + value) ids
    | .ok (.tagged _) => sumReads context total ids
    | .error fault => .done () (.error (.ofFault fault))

/-- Adds up the length of the code and the inputs, which it looks up in the engine. -/
def adder : Runner Nat Unit := fun context request _ =>
  .ask () .inspect fun _ e =>
    sumReads context request.code.length
      (((e.cells[context.cell]?).map fun cell => cell.inputs.keys).getD [])

theorem sumReads_onlyReads (context : Context) (total : Nat) (ids : List CellId) :
    (sumReads context total ids).OnlyReads context := by
  induction ids generalizing total with
  | nil => exact .done () _
  | cons id ids ih =>
    refine .read fun _ reply => ?_
    rcases reply with fault | value | entries
    · exact .done () _
    · exact ih (total + value)
    · exact ih total

theorem adder_onlyReads : adder.OnlyReads := by
  intro request state
  exact .inspect fun _ e => sumReads_onlyReads _ _ _

theorem sumReads_readsInputs {context : Context} {inputs : References} (total : Nat)
    {ids reads : List CellId} (hids : ∀ id ∈ ids, inputs.contains id = true)
    (hinputs : ∀ id, inputs.contains id = true → id ∈ ids ∨ id ∈ reads) :
    (sumReads context total ids).ReadsInputs context inputs reads false := by
  induction ids generalizing total reads with
  | nil =>
    refine .done () _ fun _ => ⟨rfl, fun id hid => ?_⟩
    exact (hinputs id hid).resolve_left List.not_mem_nil
  | cons id ids ih =>
    have hrest : ∀ total, (sumReads context total ids).ReadsInputs context inputs
        (id :: reads) false := by
      intro total
      refine ih total (fun other hother => hids other (List.mem_cons_of_mem _ hother))
        fun other hother => ?_
      rcases hinputs other hother with hother | hother
      · rcases List.mem_cons.1 hother with rfl | hother
        · exact .inr List.mem_cons_self
        · exact .inl hother
      · exact .inr (List.mem_cons_of_mem _ hother)
    refine .read (hids id List.mem_cons_self) fun _ reply => ?_
    rcases reply with fault | value | entries
    · exact .done () _ fun hok => Bool.noConfusion hok
    · exact hrest (total + value)
    · exact hrest total

theorem adder_readsInputs (e : Engine Nat) : adder.ReadsInputs e := by
  intro id cell _ flags state
  refine .inspect fun _ e' ⟨cell', hcell', hinputs⟩ => ?_
  rw [hcell', Option.map_some, Option.getD_some, hinputs]
  refine sumReads_readsInputs _ (fun other hother => ?_) fun other hother => .inl ?_
  · exact ExtTreeMap.contains_iff_mem.2 (ExtTreeMap.mem_keys.1 hother)
  · exact ExtTreeMap.mem_keys.2 (ExtTreeMap.contains_iff_mem.1 hother)

/-- Cell 1 reads cell 0, cell 2 reads cell 1, and cell 3 reads both ends. Level by level,
cell 3 comes before cell 2. -/
def ladder : Batch :=
  (∅ : Batch).insert ⟨0⟩ (.ofCode "a")
    |>.insert ⟨1⟩ (((Revision.ofCode "b").withInput ⟨0⟩ []).withAutoUpdate true)
    |>.insert ⟨2⟩ (((Revision.ofCode "c").withInput ⟨1⟩ []).withAutoUpdate true)
    |>.insert ⟨3⟩ ((((Revision.ofCode "d").withInput ⟨0⟩ []).withInput ⟨2⟩ []).withAutoUpdate true)

/-- The request of cell 0 in the ladder. -/
def ladderRequest : Request where
  cell := ⟨0⟩
  batch := ladder

/-- The second request runs the ladder once more: cell 2 inside the run of cell 3. -/
theorem ladder_glitch_free : ∃ events e t,
    adder.session 4 [.edit (.update ladder), .request ladderRequest] .new () = some (events, e) ∧
    adder.request 4 ladderRequest e () = some t ∧ begun t.events = [⟨0⟩, ⟨1⟩, ⟨3⟩, ⟨2⟩] ∧
    (begun t.events).Nodup ∧
    ∀ (context : Context) (id : CellId) (value : Output Nat),
      .answered context id (.ok value) ∈ t.events →
      ∃ cell stored, t.engine.cells[id]? = some cell ∧ cell.output = some stored ∧
        value = stored.view := by
  obtain ⟨⟨events, e⟩, hsession, hlater⟩ : ∃ found,
      adder.session 4 [.edit (.update ladder), .request ladderRequest] .new () = some found ∧
      (((found.2.update ladder).cells.toList.all fun entry => !entry.2.stale &&
        !entry.2.forceCached) &&
        (adder.request 4 ladderRequest found.2 ()).any fun t => t.reply.result.isOk &&
          t.reply.cascade.isNone && decide (begun t.events = [⟨0⟩, ⟨1⟩, ⟨3⟩, ⟨2⟩])) = true :=
    (Option.any_eq_true _ _).1 (by decide +kernel)
  simp only [Bool.and_eq_true, Option.any_eq_true, decide_eq_true_eq, List.all_eq_true,
    Bool.not_eq_true', Option.isNone_iff_eq_none] at hlater
  obtain ⟨hfresh, t, ht, ⟨hok, hcascade⟩, hbegun⟩ := hlater
  have hcells : ∀ (c : CellId) (cell : Cell Nat), (e.update ladder).cells[c]? = some cell →
      cell.stale = false ∧ cell.forceCached = false :=
    fun c cell hcell => hfresh (c, cell) (ExtTreeMap.mem_toList_iff_getElem?_eq_some.2 hcell)
  have hunforced : (e.update ladder).Unforced := fun c cell hcell => (hcells c cell hcell).2
  have hconsistent : (e.update ladder).Consistent := by
    intro p c parent child _ hparent _ hstale
    rw [(hcells p parent hparent).1] at hstale
    exact Bool.noConfusion hstale
  obtain ⟨output, hresult⟩ : ∃ output, t.reply.result = .ok output := by
    cases hresult : t.reply.result with
    | ok output => exact ⟨output, rfl⟩
    | error fault =>
      rw [hresult] at hok
      exact Bool.noConfusion hok
  have hstart : adder.History adder.Permits (.withFlags {}) [] .new := .start
  have hhistory := hstart.append_session (fun command hcommand other => by
    simp only [List.mem_cons, List.not_mem_nil, or_false] at hcommand
    rcases hcommand with rfl | rfl
    · trivial
    · exact adder_readsInputs _) hsession
  obtain ⟨honce, hanswers⟩ := adder_onlyReads.glitch_free hhistory
    (adder_readsInputs (e.update ladderRequest.batch)) hunforced hconsistent ht hresult hcascade
  exact ⟨events, e, t, hsession, ht, hbegun, honce, hanswers⟩

end Notebook
