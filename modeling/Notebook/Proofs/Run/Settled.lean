import Notebook.Proofs.Graph.Cycle
import Notebook.Proofs.Run.Declared

/-!
# What settles

When cells are updated one after the other, some are run inside the runs of others. That no
cell is run twice on the way, and that nothing is read that is replaced later, is due to
one property of the notebook:

> **whatever is upstream of a fresh cell is fresh.**

It follows that the publication of a stale cell makes nothing stale that was fresh. A
run begins with a stale cell, reads everything that the cell declares, and so restores
the property when it publishes.

While a requested cell is run the property fails: the cell has just been marked stale, and what it
feeds may still be fresh. Such cells are *off* until the run is over. Nothing upstream of the
requested cell is off, so nothing that is read in the meantime is.
-/

set_option autoImplicit false

namespace Notebook

open Std

variable {V σ : Type}

/-! ## 1. Fresh cells -/

namespace Engine

/-- The cell is not stale, and `output` is what it stores. -/
def Holds (e : Engine V) (c : CellId) (output : Option (Output V)) : Prop :=
  ∃ cell, e.cells[c]? = some cell ∧ cell.stale = false ∧ cell.output = output

/-- The cell is in the table and not stale. -/
def Fresh (e : Engine V) (c : CellId) : Prop :=
  ∃ output, e.Holds c output

theorem not_fresh_of_stale {e : Engine V} {c : CellId} {cell : Cell V}
    (hcell : e.cells[c]? = some cell) (hstale : cell.stale = true) : ¬ e.Fresh c := by
  rintro ⟨output, cell', hcell', hfresh, -⟩
  rw [hcell] at hcell'
  cases hcell'
  rw [hstale] at hfresh
  exact Bool.noConfusion hfresh

theorem holds_resetDidRun {e : Engine V} {c : CellId} {output : Option (Output V)} :
    e.resetDidRun.Holds c output ↔ e.Holds c output := by
  simp only [Holds, getElem?_resetDidRun, Option.map_eq_some_iff]
  constructor
  · rintro ⟨-, ⟨cell, hcell, rfl⟩, hfresh, houtput⟩
    exact ⟨cell, hcell, hfresh, houtput⟩
  · rintro ⟨cell, hcell, hfresh, houtput⟩
    exact ⟨_, ⟨cell, hcell, rfl⟩, hfresh, houtput⟩

theorem holds_beginRun {e : Engine V} {id c : CellId} {output : Option (Output V)} :
    (e.beginRun id).Holds c output ↔ e.Holds c output := by
  rw [Holds, getElem?_beginRun]
  split
  · simp only [Option.map_eq_some_iff]
    constructor
    · rintro ⟨-, ⟨cell, hcell, rfl⟩, hfresh, houtput⟩
      exact ⟨cell, hcell, hfresh, houtput⟩
    · rintro ⟨cell, hcell, hfresh, houtput⟩
      exact ⟨_, ⟨cell, hcell, rfl⟩, hfresh, houtput⟩
  · rfl

theorem fresh_beginRun {e : Engine V} {id c : CellId} : (e.beginRun id).Fresh c ↔ e.Fresh c :=
  exists_congr fun _ => holds_beginRun

theorem holds_insert_markStale {e : Engine V} {id c : CellId} {cell : Cell V}
    {output : Option (Output V)} :
    ({ e with cells := e.cells.insert id cell.markStale } : Engine V).Holds c output ↔
      c ≠ id ∧ e.Holds c output := by
  simp only [Holds, getElem?_insert_cell]
  by_cases hc : c = id
  · simp [hc, Cell.markStale]
  · simp [hc]

theorem holds_markDescendantsStale {e : Engine V} {id c : CellId} {output : Option (Output V)} :
    (e.markDescendantsStale id).Holds c output ↔ e.Holds c output ∧ ¬ e.graph.Feeds id c := by
  simp only [Holds, getElem?_markDescendantsStale, Option.map_eq_some_iff,
    ← Graph.mem_descendants_iff]
  by_cases hc : c ∈ e.graph.descendants id
  · simp [hc, Cell.markStale]
  · simp [hc]

theorem holds_publish {e : Engine V} {id c : CellId} {cell : Cell V} {value : Output V}
    {output : Option (Output V)} : (e.publish id cell value).Holds c output ↔
      (if c = id then some value = output else e.Holds c output) ∧ ¬ e.graph.Feeds id c := by
  rw [publish, holds_markDescendantsStale, Holds]
  refine and_congr_left fun _ => ?_
  simp only [getElem?_insert_cell]
  split
  · simp [Cell.publish]
  · rfl

/-- Whatever is directly upstream of a fresh cell is fresh, unless the cell is off. -/
def Closed (off : CellId → Prop) (e : Engine V) : Prop :=
  ∀ p c, e.Fresh c → ¬ off c → (p, c) ∈ e.graph → e.Fresh p

/-- No cell always answers its stored output. -/
def Unforced (e : Engine V) : Prop :=
  ∀ (c : CellId) (cell : Cell V), e.cells[c]? = some cell → cell.forceCached = false

theorem Unforced.of_told {e e' : Engine V} (h : e.Unforced) (htold : ∀ c, e'.told c = e.told c) :
    e'.Unforced := by
  intro c cell hcell
  obtain ⟨before, hbefore, hsame⟩ := exists_cell_of_told (htold c).symm hcell
  rw [← Cell.forceCached_eq_of_told hsame]
  exact h c before hbefore

/-- No cell that is not stale has a stale cell upstream. -/
def Consistent (e : Engine V) : Prop :=
  ∀ p c parent child, e.graph.Feeds p c → e.cells[p]? = some parent → e.cells[c]? = some child →
    parent.stale = true → child.stale = true

theorem Consistent.closed {e : Engine V} (h : e.Consistent) (hexact : e.Exact) :
    e.Closed fun _ => False := by
  rintro p c ⟨output, child, hchild, hfresh, -⟩ - hedge
  obtain ⟨hin, -⟩ := (hexact p c).1 hedge
  obtain ⟨parent, hparent⟩ := exists_cell_of_contains hin
  refine ⟨parent.output, parent, hparent, ?_, rfl⟩
  by_contra hstale
  rw [h p c parent child (.single hedge) hparent hchild (by simpa using hstale)] at hfresh
  exact Bool.noConfusion hfresh

end Engine

/-! ## 2. What settles -/

/-- The cell whose run begins, if one does. -/
def Event.begun? : Event V → Option CellId
  | .step (.beginRun id) => some id
  | _ => none

/-- The cells that are run, in the order in which their runs begin. -/
def begun (events : List (Event V)) : List CellId :=
  events.filterMap Event.begun?

@[simp] theorem begun_nil : begun ([] : List (Event V)) = [] := rfl

@[simp] theorem begun_append (events later : List (Event V)) :
    begun (events ++ later) = begun events ++ begun later :=
  List.filterMap_append

@[simp] theorem begun_cons_beginRun (id : CellId) (events : List (Event V)) :
    begun (.step (.beginRun id) :: events) = id :: begun events := rfl

@[simp] theorem begun_cons_edit (operation : Edit) (events : List (Event V)) :
    begun (.step (.edit operation) :: events) = begun events := rfl

/-- Events among which no run begins can be left out. -/
theorem begun_cons_of_none {event : Event V} (h : event.begun? = none) (events : List (Event V)) :
    begun (event :: events) = begun events :=
  List.filterMap_cons_none h

/-- **From `e` to `e'` things settle.** No cell is run twice, and only stale cells are. What is
fresh stays as it is, off cells excepted, and what was answered to a read is still stored. -/
structure Settles (off : CellId → Prop) (e : Engine V) (events : List (Event V)) (e' : Engine V) :
    Prop where
  closed : e'.Closed off
  kept : ∀ c output, ¬ off c → e.Holds c output → e'.Holds c output
  once : (begun events).Nodup
  ran : ∀ c ∈ begun events, ¬ off c ∧ ¬ e.Fresh c ∧ e'.Fresh c
  fresh : ∀ c, e'.Fresh c → e.Fresh c ∨ c ∈ begun events
  answers : ∀ context id value, .answered context id (.ok value) ∈ events →
    ¬ off id ∧ ∃ output, e'.Holds id (some output) ∧ value = output.view

namespace Settles

variable {off : CellId → Prop} {e e' e'' : Engine V} {events later : List (Event V)}

theorem refl (h : e.Closed off) : Settles off e [] e where
  closed := h
  kept _ _ _ hc := hc
  once := List.nodup_nil
  ran c hc := by cases hc
  fresh _ hc := .inl hc
  answers _ _ _ hanswer := by cases hanswer

/-- An edit that changes nothing here, noted on the way. -/
theorem edit (h : e.Closed off) (operation : Edit) : Settles off e [.step (.edit operation)] e where
  closed := h
  kept _ _ _ hc := hc
  once := List.nodup_nil
  ran c hc := by cases hc
  fresh _ hc := .inl hc
  answers _ _ _ hanswer := by simp at hanswer

theorem stays (h : Settles off e events e') {c : CellId} (hc : ¬ off c) (hfresh : e.Fresh c) :
    e'.Fresh c := by
  obtain ⟨output, hholds⟩ := hfresh
  exact ⟨output, h.kept c output hc hholds⟩

theorem trans (h : Settles off e events e') (h' : Settles off e' later e'') :
    Settles off e (events ++ later) e'' where
  closed := h'.closed
  kept c output hc hholds := h'.kept c output hc (h.kept c output hc hholds)
  once := by
    rw [begun_append, List.nodup_append]
    refine ⟨h.once, h'.once, ?_⟩
    -- What ran first is fresh, and what runs later is not when it begins.
    rintro c hfirst d hsecond rfl
    exact (h'.ran c hsecond).2.1 (h.ran c hfirst).2.2
  ran c hc := by
    rw [begun_append, List.mem_append] at hc
    rcases hc with hc | hc
    · obtain ⟨hoff, hstale, hfresh⟩ := h.ran c hc
      exact ⟨hoff, hstale, h'.stays hoff hfresh⟩
    · obtain ⟨hoff, hstale, hfresh⟩ := h'.ran c hc
      exact ⟨hoff, fun hbefore => hstale (h.stays hoff hbefore), hfresh⟩
  fresh c hc := by
    rw [begun_append, List.mem_append]
    rcases h'.fresh c hc with hc | hc
    · rcases h.fresh c hc with hc | hc
      · exact .inl hc
      · exact .inr (.inl hc)
    · exact .inr (.inr hc)
  answers context id value hanswer := by
    rcases List.mem_append.1 hanswer with hanswer | hanswer
    · obtain ⟨hoff, output, hholds, hvalue⟩ := h.answers context id value hanswer
      exact ⟨hoff, output, h'.kept id _ hoff hholds, hvalue⟩
    · exact h'.answers context id value hanswer

end Settles

/-! ## 3. Runs -/

/-- Each run reads what its cell declares, every cell is run as long as it is stale, and what
an off cell feeds is off. -/
structure Grounded (runner : Runner V σ) (off : CellId → Prop) (e : Engine V) : Prop
    extends Declared runner e where
  unforced : e.Unforced
  down : ∀ p c, off p → (p, c) ∈ e.graph → off c

/-- Things settle, and `output` is what the cell stores in the end. Only the cell and what feeds
it are run. -/
structure Produces (off : CellId → Prop) (e : Engine V) (id : CellId) (output : Output V)
    (events : List (Event V)) (e' : Engine V) : Prop extends Settles off e events e' where
  holds : e'.Holds id (some output)
  upstream : ∀ c ∈ begun events, c = id ∨ e.graph.Feeds c id

/-- The run of a stale cell that is not off produces the output that is answered. -/
def FreshRun.Produces (runner : Runner V σ) (fresh : FreshRun V σ) : Prop :=
  ∀ off id overrides e s t output, Grounded runner off e → e.Closed off → ¬ off id → ¬ e.Fresh id →
    fresh id overrides e s = some t → t.reply = .ok output →
    Notebook.Produces off e id output t.events t.engine

section

variable {runner : Runner V σ} {fresh : FreshRun V σ} {off : CellId → Prop} {e e' : Engine V}
  {s : σ}

theorem Grounded.of_told (h : Grounded runner off e) (hgraph : e'.graph = e.graph)
    (htold : ∀ c, e'.told c = e.told c) : Grounded runner off e' where
  toDeclared := h.toDeclared.of_told hgraph htold
  unforced := h.unforced.of_told htold
  down p c hp hedge := h.down p c hp (hgraph ▸ hedge)

/-- **Nothing upstream of a fresh cell is stale**, through any number of cells. -/
theorem Engine.Closed.fresh_of_feeds (h : e.Closed off)
    (hdown : ∀ p c, off p → (p, c) ∈ e.graph → off c) {p c : CellId} (hfeeds : e.graph.Feeds p c)
    (hfresh : e.Fresh c) (hoff : ¬ off c) : e.Fresh p := by
  induction hfeeds with
  | single hedge => exact h p _ hfresh hoff hedge
  | tail _ hedge ih => exact ih (h _ _ hfresh hoff hedge) fun hb => hoff (hdown _ _ hb hedge)

/-- An execution answers what is stored, or runs the cell. -/
theorem produces_executeWith (h : FreshRun.Produces runner fresh) {id : CellId}
    {overrides : FlagOverrides} {t : Turn V σ (Except Fault (Output V))} {output : Output V}
    (hground : Grounded runner off e) (hclosed : e.Closed off) (hoff : ¬ off id)
    (ht : executeWith fresh id overrides e s = some t) (hreply : t.reply = .ok output) :
    Produces off e id output t.events t.engine := by
  obtain ⟨-, rfl⟩ | ⟨cell, hcell, hcache, rfl⟩ | ⟨cell, hcell, hcache, ht⟩ := executeWith_cases ht
  · cases hreply
  · rw [Cell.usesCache_eq_not_stale (hground.unforced id cell hcell), Bool.not_eq_true'] at hcache
    have hreply : e.cachedOutput id = .ok output := hreply
    rw [Engine.cachedOutput, hcell] at hreply
    cases hstored : cell.output with
    | none =>
      simp only [hstored] at hreply
      cases hreply
    | some value =>
      simp only [hstored] at hreply
      cases hreply
      exact ⟨.refl hclosed, ⟨cell, hcell, hcache, hstored⟩, fun c hc => by cases hc⟩
  · rw [Cell.usesCache_eq_not_stale (hground.unforced id cell hcell), Bool.not_eq_false'] at hcache
    exact h off id overrides e s t output hground hclosed hoff
      (Engine.not_fresh_of_stale hcell hcache) ht hreply

theorem begun_read (context : Context) (id : CellId) (events : List (Event V))
    (reply : Except Fault (Output V)) :
    begun (.step (.connect id context.cell) :: events ++ [.answered context id reply]) =
      begun events := by
  rw [List.cons_append, begun_cons_of_none rfl, begun_append, begun_cons_of_none rfl, begun_nil,
    List.append_nil]

/-- What is settled by a read of a cell that is not off: the cell is executed and its output is
answered. -/
theorem Produces.read {id : CellId} {output : Output V} {events : List (Event V)}
    (h : Notebook.Produces off e id output events e') (hoff : ¬ off id) (context : Context) :
    Settles off e (.step (.connect id context.cell) :: events ++
      [.answered context id (.ok output.view)]) e' := by
  have hbegun := begun_read context id events (.ok output.view)
  refine ⟨h.closed, h.kept, hbegun ▸ h.once, hbegun ▸ h.ran, hbegun ▸ h.fresh, ?_⟩
  intro context' other value hanswer
  simp only [List.cons_append, List.mem_cons, reduceCtorEq, List.mem_append,
    List.not_mem_nil, or_false, false_or] at hanswer
  rcases hanswer with hanswer | hanswer
  · exact h.answers context' other value hanswer
  · cases hanswer
    exact ⟨hoff, output, h.holds, rfl⟩

/-- A run in which a read has failed does not end with an output. -/
theorem Program.ReadsInputs.not_failed (hf : FreshRun.Framed fresh) {context : Context}
    {inputs : References} {reads : List CellId} {failed : Bool}
    {program : Program V σ (Except RunFailure (Output V))}
    (h : program.ReadsInputs context inputs reads failed)
    (hinputs : e.HasInputs context.cell inputs) {t : Turn V σ (Except RunFailure (Output V))}
    {output : Output V} (ht : perform fresh program e s = some t) (hreply : t.reply = .ok output) :
    failed = false := by
  induction h generalizing e s t with
  | done state outcome h =>
    rw [perform_done] at ht
    cases ht
    have houtcome : outcome = .ok output := hreply
    rw [houtcome] at h
    exact (h rfl).1
  | inspect _ ih =>
    rw [perform_inspect] at ht
    exact ih _ e hinputs hinputs ht hreply
  | @read reads failed state id next _ _ ih =>
    rw [perform_read] at ht
    obtain ⟨first, hfirst, ht⟩ := Option.bind_eq_some_iff.1 ht
    obtain ⟨second, hsecond, rfl⟩ := Option.map_eq_some_iff.1 ht
    have hnone := ih first.state first.reply (hinputs.of_told (frame_of_readWith hf hfirst).told)
      hsecond hreply
    rw [Bool.or_eq_false_iff] at hnone
    exact hnone.1

/-- **A run that ends with an output settles everything that its cell declares.** -/
theorem settles_perform (hf : FreshRun.Framed fresh) (hstill : FreshRun.Still runner fresh)
    (h : FreshRun.Produces runner fresh) {context : Context} {inputs : References}
    {reads : List CellId} {failed : Bool} {program : Program V σ (Except RunFailure (Output V))}
    (hprogram : program.ReadsInputs context inputs reads failed)
    (hinputs : e.HasInputs context.cell inputs) (hground : Grounded runner off e)
    (hclosed : e.Closed off) (hoff : ¬ off context.cell) (hreads : ∀ p ∈ reads, e.Fresh p ∧ ¬ off p)
    {t : Turn V σ (Except RunFailure (Output V))} {output : Output V}
    (ht : perform fresh program e s = some t) (hreply : t.reply = .ok output) :
    Settles off e t.events t.engine ∧ (∀ p, inputs.contains p = true → t.engine.Fresh p) ∧
      ∀ c ∈ begun t.events, e.graph.Feeds c context.cell := by
  induction hprogram generalizing e s t with
  | done state outcome hdone =>
    rw [perform_done] at ht
    cases ht
    have houtcome : outcome = .ok output := hreply
    rw [houtcome] at hdone
    refine ⟨.refl hclosed, fun p hp => (hreads p ((hdone rfl).2 p hp)).1, fun c hc => by cases hc⟩
  | inspect _ ih =>
    rw [perform_inspect] at ht
    exact ih _ e hinputs hinputs hground hclosed hreads ht hreply
  | @read reads failed state id next hid hnext ih =>
    rw [perform_read] at ht
    obtain ⟨first, hfirst, ht⟩ := Option.bind_eq_some_iff.1 ht
    obtain ⟨second, hsecond, rfl⟩ := Option.map_eq_some_iff.1 ht
    have htold := (frame_of_readWith hf hfirst).told
    have hinputs' := hinputs.of_told htold
    -- The run goes on to an output, so the read has not failed.
    have hanswered := (hnext first.state first.reply).not_failed hf hinputs' hsecond hreply
    rw [Bool.or_eq_false_iff, Bool.not_eq_false'] at hanswered
    obtain ⟨fault, rfl⟩ | ⟨run, hedge, hrun, rfl⟩ := hground.exact.readWith_cases hinputs hid hfirst
    · exact Bool.noConfusion hanswered.2
    obtain ⟨value, hvalue⟩ : ∃ value, run.reply = .ok value := by
      cases hrunReply : run.reply with
      | ok value => exact ⟨value, rfl⟩
      | error fault =>
        rw [hrunReply] at hanswered
        exact Bool.noConfusion hanswered.2
    have hidOff : ¬ off id := fun hid => hoff (hground.down _ _ hid hedge)
    have hproduces := produces_executeWith h hground hclosed hidOff hrun hvalue
    rw [hvalue] at hsecond ⊢
    have hread := hproduces.read hidOff context
    have hgraph : run.engine.graph = e.graph :=
      still_executeWith hstill id {} e _ run hground.toDeclared hrun
    have hreads' : ∀ p ∈ id :: reads, run.engine.Fresh p ∧ ¬ off p := by
      intro p hp
      rcases List.mem_cons.1 hp with rfl | hp
      · exact ⟨⟨_, hproduces.holds⟩, hidOff⟩
      · obtain ⟨hfresh, hpOff⟩ := hreads p hp
        exact ⟨hproduces.stays hpOff hfresh, hpOff⟩
    obtain ⟨hrest, hfresh, hupstream⟩ := ih run.state _ hinputs' (hground.of_told hgraph htold)
      hproduces.closed hreads' hsecond hreply
    refine ⟨hread.trans hrest, hfresh, fun c hc => ?_⟩
    have hc : c ∈ begun (_ ++ second.events) := hc
    rw [begun_append, begun_read, List.mem_append] at hc
    rcases hc with hc | hc
    · rcases hproduces.upstream c hc with rfl | hfeeds
      · exact .single hedge
      · exact hfeeds.tail hedge
    · rw [← hgraph]
      exact hupstream c hc

theorem begun_run (id : CellId) (events : List (Event V)) (output : Output V)
    (slot : Option CellId) :
    begun (.step (.beginRun id) :: events ++
      [.step (.write ⟨id⟩ id output), .step (.resume slot)]) = id :: begun events := by
  rw [List.cons_append, begun_cons_beginRun, begun_append, begun_cons_of_none rfl,
    begun_cons_of_none rfl, begun_nil, List.append_nil]

/-- **The publication of a stale cell** whose parents are fresh makes nothing stale that was fresh
and is not off: whatever the cell feeds is stale already. -/
theorem Settles.publish {id : CellId} {events : List (Event V)}
    (h : Settles off (e.beginRun id) events e') (hcycle : e'.graph.hasCycle = false)
    (hdown : ∀ p c, off p → (p, c) ∈ e'.graph → off c) (hoff : ¬ off id) (hstale : ¬ e.Fresh id)
    (hnot : id ∉ begun events) (hparents : ∀ p, (p, id) ∈ e'.graph → e'.Fresh p) (cell : Cell V)
    (output : Output V) (slot : Option CellId) :
    Settles off e
      (.step (.beginRun id) :: events ++ [.step (.write ⟨id⟩ id output), .step (.resume slot)])
      ((e'.publish id cell output).resume slot) := by
  have hbegun := begun_run id events output slot
  have hstale' : ¬ e'.Fresh id := by
    intro hfresh
    rcases h.fresh id hfresh with hfresh | hran
    · exact hstale (Engine.fresh_beginRun.1 hfresh)
    · exact hnot hran
  have hself : ((e'.publish id cell output).resume slot).Holds id (some output) :=
    Engine.holds_publish.2 ⟨by rw [if_pos rfl], Graph.not_feeds_self hcycle id⟩
  have hothers : ∀ c stored, ¬ off c → e'.Holds c stored →
      ((e'.publish id cell output).resume slot).Holds c stored := by
    intro c stored hc hholds
    have hne : c ≠ id := by
      rintro rfl
      exact hstale' ⟨stored, hholds⟩
    refine Engine.holds_publish.2 ⟨by rwa [if_neg hne], fun hfeeds => hstale' ?_⟩
    exact h.closed.fresh_of_feeds hdown hfeeds ⟨stored, hholds⟩ hc
  have hback : ∀ c, ((e'.publish id cell output).resume slot).Fresh c → c = id ∨ e'.Fresh c := by
    rintro c ⟨stored, hholds⟩
    have hholds := (Engine.holds_publish.1 hholds).1
    split at hholds
    · rename_i hc
      exact .inl hc
    · exact .inr ⟨stored, hholds⟩
  have hstays : ∀ c, ¬ off c → e'.Fresh c → ((e'.publish id cell output).resume slot).Fresh c := by
    rintro c hc ⟨stored, hholds⟩
    exact ⟨stored, hothers c stored hc hholds⟩
  exact {
    closed := by
      intro p c hfresh hc hedge
      have hp : ¬ off p := fun hp => hc (hdown p c hp hedge)
      rcases hback c hfresh with rfl | hfresh
      · exact hstays p hp (hparents p hedge)
      · exact hstays p hp (h.closed p c hfresh hc hedge)
    kept := fun c stored hc hholds =>
      hothers c stored hc (h.kept c stored hc (Engine.holds_beginRun.2 hholds))
    once := by
      rw [hbegun, List.nodup_cons]
      exact ⟨hnot, h.once⟩
    ran := by
      intro c hc
      rw [hbegun, List.mem_cons] at hc
      rcases hc with rfl | hc
      · exact ⟨hoff, hstale, _, hself⟩
      · obtain ⟨hcOff, hcStale, hfresh⟩ := h.ran c hc
        exact ⟨hcOff, fun hcFresh => hcStale (Engine.fresh_beginRun.2 hcFresh),
          hstays c hcOff hfresh⟩
    fresh := by
      intro c hc
      rw [hbegun, List.mem_cons]
      rcases hback c hc with hc | hc
      · exact .inr (.inl hc)
      · rcases h.fresh c hc with hc | hc
        · exact .inl (Engine.fresh_beginRun.1 hc)
        · exact .inr (.inr hc)
    answers := by
      intro context other value hanswer
      simp only [List.cons_append, List.mem_cons, reduceCtorEq, List.mem_append,
        List.not_mem_nil, or_false, false_or] at hanswer
      obtain ⟨hother, stored, hholds, hvalue⟩ := h.answers context other value hanswer
      exact ⟨hother, stored, hothers other _ hother hholds, hvalue⟩ }

/-- **A run produces what it answers**, however deep it makes other runs nest. -/
theorem produces_runFresh (hr : runner.OnlyReads) (limit : Nat) :
    FreshRun.Produces runner (runFresh runner limit) := by
  induction limit with
  | zero =>
    intro off id overrides e s t output _ _ _ _ ht hreply
    obtain ⟨fault, rfl⟩ | ⟨deeper, _, _, _, hlimit, -⟩ := hr.runFresh_cases ht
    · cases hreply
    · cases hlimit
  | succ limit ih =>
    intro off id overrides e s t output hground hclosed hoff hstale ht hreply
    obtain ⟨fault, rfl⟩ | ⟨deeper, cell, run, cell', hlimit, hcycle, hcell, hrun, hframe, hcell',
        htold, hend⟩ :=
      hr.runFresh_cases ht
    · cases hreply
    obtain ⟨value, hvalue, rfl⟩ | ⟨failure, -, rfl⟩ := hend
    · cases hlimit
      cases hreply
      have hbegin : Grounded runner off (e.beginRun id) := hground.of_told rfl (e.told_beginRun id)
      have hopen : (e.beginRun id).Closed off := fun p c hfresh hc hedge =>
        Engine.fresh_beginRun.2 (hclosed p c (Engine.fresh_beginRun.1 hfresh) hc hedge)
      have hinputs : (e.beginRun id).HasInputs id cell.inputs :=
        Engine.HasInputs.of_told ⟨cell, hcell, rfl⟩ (e.told_beginRun id)
      have hprogram := hground.reads id cell hcell (e.flags.override overrides) s
      have hgraph : run.engine.graph = e.graph := graph_of_perform (framed_runFresh hr limit)
        (still_runFresh hr limit) hprogram hbegin.toDeclared hinputs hrun
      obtain ⟨hsettles, hfresh, hupstream⟩ := settles_perform (framed_runFresh hr limit)
        (still_runFresh hr limit) ih hprogram hinputs hbegin hopen hoff (by simp) hrun hvalue
      rw [← hgraph] at hcycle
      have hnot : id ∉ begun run.events := fun hran =>
        Graph.not_feeds_self hcycle id (hgraph ▸ hupstream id hran)
      have hparents : ∀ p, (p, id) ∈ run.engine.graph → run.engine.Fresh p := by
        intro p hedge
        rw [hgraph] at hedge
        obtain ⟨-, declaring, hdeclaring, hdeclares⟩ := (hground.exact p id).1 hedge
        rw [hcell] at hdeclaring
        cases hdeclaring
        exact hfresh p hdeclares
      have hdown : ∀ p c, off p → (p, c) ∈ run.engine.graph → off c := hgraph ▸ hground.down
      refine ⟨hsettles.publish hcycle hdown hoff hstale hnot hparents cell' output _, ?_, ?_⟩
      · exact Engine.holds_publish.2 ⟨by rw [if_pos rfl], Graph.not_feeds_self hcycle id⟩
      · intro c hc
        rw [begun_run, List.mem_cons] at hc
        rcases hc with hc | hc
        · exact .inl hc
        · exact .inr (hupstream c hc)
    · cases hreply

end

end Notebook
