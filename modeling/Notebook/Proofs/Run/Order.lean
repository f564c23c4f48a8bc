import Mathlib.Data.List.Chain
import Notebook.Proofs.Graph.Cycle
import Notebook.Proofs.Run.Readers

/-!
# Runs lie inside one another

A run may cause other runs, which end before it does. So at any moment the runs in progress form a
stack, and the notes of an operation tell how it grows and shrinks: the beginning of a run puts
its cell on top, and handing back the slot takes the top away.

With runners that only read, the cell on top was read by the one below it, for a run inside
another one is caused by a read. The edge of that read is still in the graph, since the only step
of a run that takes edges away is the failure of the cell that they lead out of, and that cell has
not ended yet. So the stack is a chain of edges. A run that began again on the same stack would
close the chain, and the test for cycles would have refused it. Therefore

> **no run begins inside a run of the same cell**, and no more runs are in progress than there are
> cells.

It follows that the limit for the nesting of runs is never reached if it is the number of cells.
-/

set_option autoImplicit false

namespace Notebook

open Std

variable {V σ α β γ : Type}

/-! ## 1. Runs in progress -/

/-- The cells whose runs are in progress after an event, the innermost first. -/
def Event.runsAfter (runs : List CellId) : Event V → List CellId
  | .step (.beginRun id) => id :: runs
  | .step (.resume _) => runs.tail
  | _ => runs

/-- The cells whose runs are in progress after the events, the innermost first. -/
def openRuns (runs : List CellId) (events : List (Event V)) : List CellId :=
  events.foldl Event.runsAfter runs

@[simp] theorem openRuns_nil (runs : List CellId) : openRuns (V := V) runs [] = runs := rfl

@[simp] theorem openRuns_cons (runs : List CellId) (event : Event V) (events : List (Event V)) :
    openRuns runs (event :: events) = openRuns (event.runsAfter runs) events := rfl

@[simp] theorem openRuns_append (runs : List CellId) (before after : List (Event V)) :
    openRuns runs (before ++ after) = openRuns (openRuns runs before) after :=
  List.foldl_append

/-- May the event happen while the runs are in progress? A run begins only if none of the same
cell is in progress. Reads, publications and failures are those of the innermost run, and
nothing is edited during a run. -/
def Event.Fits (runs : List CellId) : Event V → Prop
  | .step (.edit _) => runs = []
  | .step (.beginRun id) => id ∉ runs
  | .step (.connect _ child) => runs.head? = some child
  | .step (.write context id _) => runs.head? = some id ∧ context.cell = id
  | .step (.failRun id) => runs.head? = some id
  | _ => True

/-- Every event fits the runs that are in progress when it happens. -/
def Orderly (runs : List CellId) : List (Event V) → Prop
  | [] => True
  | event :: events => event.Fits runs ∧ Orderly (event.runsAfter runs) events

theorem orderly_append {runs : List CellId} {before after : List (Event V)} :
    Orderly runs (before ++ after) ↔
      Orderly runs before ∧ Orderly (openRuns runs before) after := by
  induction before generalizing runs with
  | nil => simp [Orderly]
  | cons event before ih => simp only [List.cons_append, Orderly, openRuns_cons, ih, and_assoc]

/-- An event of an orderly list fits the runs that are in progress after the events before it. -/
theorem Orderly.fits {runs : List CellId} {before after : List (Event V)} {event : Event V}
    (h : Orderly runs (before ++ event :: after)) : event.Fits (openRuns runs before) :=
  (orderly_append.1 h).2.1

theorem Event.Fits.nodup {runs : List CellId} {event : Event V} (h : event.Fits runs)
    (hruns : runs.Nodup) : (event.runsAfter runs).Nodup := by
  cases event with
  | answered context id reply => exact hruns
  | bound name value => exact hruns
  | step st =>
    cases st with
    | beginRun id => exact List.nodup_cons.2 ⟨h, hruns⟩
    | resume slot => exact hruns.sublist (List.tail_sublist runs)
    | edit operation => exact hruns
    | connect parent child => exact hruns
    | write context id output => exact hruns
    | failRun id => exact hruns

/-- In an orderly list the runs in progress are of different cells. -/
theorem Orderly.nodup {runs : List CellId} {events : List (Event V)} (h : Orderly runs events)
    (hruns : runs.Nodup) : (openRuns runs events).Nodup := by
  induction events generalizing runs with
  | nil => exact hruns
  | cons event events ih => exact ih h.2 (h.1.nodup hruns)

/-- What is in progress was so before or has begun since. -/
theorem mem_openRuns {runs : List CellId} {events : List (Event V)} {id : CellId}
    (h : id ∈ openRuns runs events) : id ∈ runs ∨ .step (.beginRun id) ∈ events := by
  induction events generalizing runs with
  | nil => exact .inl h
  | cons event events ih =>
    rcases ih h with h | h
    · suffices id ∈ runs ∨ event = .step (.beginRun id) by
        rcases this with h | rfl
        · exact .inl h
        · exact .inr List.mem_cons_self
      cases event with
      | answered context id reply => exact .inl h
      | bound name value => exact .inl h
      | step st =>
        cases st with
        | beginRun begun =>
          rcases List.mem_cons.1 h with rfl | h
          · exact .inr rfl
          · exact .inl h
        | resume slot => exact .inl (List.mem_of_mem_tail h)
        | edit operation => exact .inl h
        | connect parent child => exact .inl h
        | write context id output => exact .inl h
        | failRun id => exact .inl h
    · exact .inr (List.mem_cons_of_mem _ h)

/-! ## 2. The stack in the graph -/

/-- The engine while the runs are in progress: only the given cells are in the table, and each run
is of a cell that the run around it has read. -/
structure Hosts (cells runs : List CellId) (e : Engine V) : Prop where
  known : ∀ id, e.contains id = true → id ∈ cells
  chain : runs.IsChain fun inner outer => (inner, outer) ∈ e.graph
  nodup : runs.Nodup
  subset : runs ⊆ cells

namespace Hosts

variable {cells runs : List CellId} {e : Engine V}

/-- Between runs. -/
theorem idle (hknown : ∀ id, e.contains id = true → id ∈ cells) : Hosts cells [] e :=
  ⟨hknown, .nil, List.nodup_nil, List.nil_subset cells⟩

/-- What happens inside the runs keeps the edges between them. -/
theorem mono (h : Hosts cells runs e) {e' : Engine V} (hframe : Engine.Frame e e')
    (hkept : ∀ p ∈ runs, ∀ c, (p, c) ∈ e.graph → (p, c) ∈ e'.graph) : Hosts cells runs e' where
  known id hin := h.known id (by rwa [hframe.contains] at hin)
  chain := h.chain.imp_of_mem_imp fun inner outer hinner _ hedge => hkept inner hinner outer hedge
  nodup := h.nodup
  subset := h.subset

/-- **A run that may begin is of a cell that is not on the stack.** Otherwise the chain
is closed. -/
theorem beginRun (h : Hosts cells runs e) {id : CellId}
    (hread : ∀ reader ∈ runs.head?, (id, reader) ∈ e.graph) (hcycle : e.graph.hasCycle = false)
    (hin : e.contains id = true) : Hosts cells (id :: runs) (e.beginRun id) := by
  have hchain : (id :: runs).IsChain fun inner outer => (inner, outer) ∈ e.graph := by
    cases runs with
    | nil => exact .singleton id
    | cons reader outer => exact .cons_cons (hread reader rfl) h.chain
  have hfeeds : (id :: runs).Pairwise e.graph.Feeds :=
    List.isChain_iff_pairwise.1 (hchain.imp fun _ _ => .single)
  have hfresh : id ∉ runs := fun hmem =>
    Graph.not_feeds_self hcycle id ((List.pairwise_cons.1 hfeeds).1 id hmem)
  refine ⟨fun c hc => h.known c ?_, hchain, List.nodup_cons.2 ⟨hfresh, h.nodup⟩,
    List.cons_subset.2 ⟨h.known id hin, h.subset⟩⟩
  rwa [Engine.contains_of_told (e.told_beginRun id c)] at hc

/-- There are no more runs in progress than cells. -/
theorem length_le (h : Hosts cells runs e) : runs.length ≤ cells.length :=
  (List.subperm_of_subset h.nodup h.subset).length_le

end Hosts

/-! ## 3. What an act does inside the runs -/

/-- Events that may happen while the runs are in progress, and that begin and end none. -/
def Quiet (runs : List CellId) (events : List (Event V)) : Prop :=
  ∀ event ∈ events, event.Fits runs ∧ event.runsAfter runs = runs

namespace Quiet

variable {runs : List CellId} {events : List (Event V)}

theorem nil (runs : List CellId) : Quiet (V := V) runs [] := fun _ h => nomatch h

theorem single {event : Event V} (hfits : event.Fits runs) (hruns : event.runsAfter runs = runs) :
    Quiet runs [event] := by
  intro other hother
  rw [List.mem_singleton.1 hother]
  exact ⟨hfits, hruns⟩

theorem openRuns (h : Quiet runs events) : openRuns runs events = runs := by
  induction events with
  | nil => rfl
  | cons event events ih =>
    rw [openRuns_cons, (h event List.mem_cons_self).2]
    exact ih fun other hother => h other (List.mem_cons_of_mem _ hother)

theorem orderly (h : Quiet runs events) : Orderly runs events := by
  induction events with
  | nil => trivial
  | cons event events ih =>
    refine ⟨(h event List.mem_cons_self).1, ?_⟩
    rw [(h event List.mem_cons_self).2]
    exact ih fun other hother => h other (List.mem_cons_of_mem _ hother)

theorem not_beginRun (h : Quiet runs events) {id : CellId} : .step (.beginRun id) ∉ events := by
  intro hid
  exact List.cons_ne_self id runs (h _ hid).2

end Quiet

/-- The outcome of an act while the runs are in progress. It is missing only if the levels that
are left do not suffice for a stack of all cells. The notes are orderly, what begins is known and
ends again, and no edge that leads out of a running cell is taken away. -/
structure Ordered (cells runs : List CellId) (limit : Nat) (e : Engine V)
    (outcome : Option (Turn V σ α)) : Prop where
  returns : outcome = none → limit + runs.length < cells.length
  orderly : ∀ t, outcome = some t → Orderly runs t.events
  closed : ∀ t, outcome = some t → openRuns runs t.events = runs
  begun : ∀ t, outcome = some t → ∀ id, .step (.beginRun id) ∈ t.events → id ∈ cells
  kept : ∀ t, outcome = some t → ∀ p ∈ runs, ∀ c, (p, c) ∈ e.graph → (p, c) ∈ t.engine.graph

namespace Ordered

variable {cells runs : List CellId} {limit : Nat} {e : Engine V}

theorem turn (value : α) (s : σ) {events : List (Event V)} (h : Quiet runs events) :
    Ordered cells runs limit e (some ⟨value, e, s, events⟩) where
  returns hnone := nomatch hnone
  orderly t ht := by
    cases ht
    exact h.orderly
  closed t ht := by
    cases ht
    exact h.openRuns
  begun t ht id hid := by
    cases ht
    exact absurd hid h.not_beginRun
  kept t ht p _ c hedge := by
    cases ht
    exact hedge

theorem reply (value : α) (s : σ) : Ordered cells runs limit e (some ⟨value, e, s, []⟩) :=
  turn value s (.nil runs)

/-- An act between events that do not concern the stack. -/
theorem between {e₀ : Engine V} {outcome : Option (Turn V σ α)}
    (h : Ordered cells runs limit e₀ outcome) {before : List (Event V)}
    {after : Turn V σ α → List (Event V)} {f : Turn V σ α → Turn V σ β}
    (hbefore : Quiet runs before) (hafter : ∀ t, Quiet runs (after t))
    (hevents : ∀ t, (f t).events = before ++ t.events ++ after t)
    (hfirst : ∀ p ∈ runs, ∀ c, (p, c) ∈ e.graph → (p, c) ∈ e₀.graph)
    (hlast : ∀ t, ∀ p ∈ runs, ∀ c, (p, c) ∈ t.engine.graph → (p, c) ∈ (f t).engine.graph) :
    Ordered cells runs limit e (outcome.map f) where
  returns hnone := h.returns (Option.map_eq_none_iff.1 hnone)
  orderly t ht := by
    obtain ⟨u, hu, rfl⟩ := Option.map_eq_some_iff.1 ht
    rw [hevents, orderly_append, orderly_append, openRuns_append, hbefore.openRuns, h.closed u hu]
    exact ⟨⟨hbefore.orderly, h.orderly u hu⟩, (hafter u).orderly⟩
  closed t ht := by
    obtain ⟨u, hu, rfl⟩ := Option.map_eq_some_iff.1 ht
    rw [hevents, openRuns_append, openRuns_append, hbefore.openRuns, h.closed u hu,
      (hafter u).openRuns]
  begun t ht id hid := by
    obtain ⟨u, hu, rfl⟩ := Option.map_eq_some_iff.1 ht
    rw [hevents, List.mem_append, List.mem_append] at hid
    obtain (hid | hid) | hid := hid
    · exact absurd hid hbefore.not_beginRun
    · exact h.begun u hu id hid
    · exact absurd hid (hafter u).not_beginRun
  kept t ht p hp c hedge := by
    obtain ⟨u, hu, rfl⟩ := Option.map_eq_some_iff.1 ht
    exact hlast u p hp c (h.kept u hu p hp c (hfirst p hp c hedge))

/-- Two acts, one after the other. -/
theorem bind {outcome : Option (Turn V σ α)} {next : Turn V σ α → Option (Turn V σ β)}
    (h : Ordered cells runs limit e outcome)
    (hnext : ∀ t, outcome = some t → Ordered cells runs limit t.engine (next t))
    (join : Turn V σ α → Turn V σ β → Turn V σ γ)
    (hevents : ∀ first second, (join first second).events = first.events ++ second.events)
    (hengine : ∀ first second, (join first second).engine = second.engine) :
    Ordered cells runs limit e (outcome.bind fun first => (next first).map (join first)) where
  returns hnone := by
    cases hout : outcome with
    | none => exact h.returns hout
    | some first =>
      rw [hout, Option.bind_some] at hnone
      exact (hnext first hout).returns (Option.map_eq_none_iff.1 hnone)
  orderly t ht := by
    obtain ⟨first, hfirst, ht⟩ := Option.bind_eq_some_iff.1 ht
    obtain ⟨second, hsecond, rfl⟩ := Option.map_eq_some_iff.1 ht
    rw [hevents, orderly_append, h.closed first hfirst]
    exact ⟨h.orderly first hfirst, (hnext first hfirst).orderly second hsecond⟩
  closed t ht := by
    obtain ⟨first, hfirst, ht⟩ := Option.bind_eq_some_iff.1 ht
    obtain ⟨second, hsecond, rfl⟩ := Option.map_eq_some_iff.1 ht
    rw [hevents, openRuns_append, h.closed first hfirst]
    exact (hnext first hfirst).closed second hsecond
  begun t ht id hid := by
    obtain ⟨first, hfirst, ht⟩ := Option.bind_eq_some_iff.1 ht
    obtain ⟨second, hsecond, rfl⟩ := Option.map_eq_some_iff.1 ht
    rw [hevents] at hid
    rcases List.mem_append.1 hid with hid | hid
    · exact h.begun first hfirst id hid
    · exact (hnext first hfirst).begun second hsecond id hid
  kept t ht p hp c hedge := by
    obtain ⟨first, hfirst, ht⟩ := Option.bind_eq_some_iff.1 ht
    obtain ⟨second, hsecond, rfl⟩ := Option.map_eq_some_iff.1 ht
    rw [hengine]
    exact (hnext first hfirst).kept second hsecond p hp c (h.kept first hfirst p hp c hedge)

end Ordered

/-- The operation that runs one cell keeps the order, if the innermost run has read the cell. -/
def FreshRun.Ordered (cells : List CellId) (limit : Nat) (fresh : FreshRun V σ) : Prop :=
  ∀ runs id overrides e s, Hosts cells runs e → (∀ reader ∈ runs.head?, (id, reader) ∈ e.graph) →
    Notebook.Ordered cells runs limit e (fresh id overrides e s)

section

variable {cells : List CellId} {limit : Nat} {fresh : FreshRun V σ}

theorem ordered_executeWith (h : FreshRun.Ordered cells limit fresh) :
    FreshRun.Ordered cells limit (executeWith fresh) := by
  intro runs id overrides e s hhosts hread
  rw [executeWith_apply]
  split
  · exact .reply _ s
  · split
    · exact .reply _ s
    · exact h runs id overrides e s hhosts hread

/-- A read by the innermost run. -/
theorem ordered_readWith (h : FreshRun.Ordered cells limit fresh) {reader : CellId}
    {outer : List CellId} (id : CellId) {e : Engine V} (s : σ)
    (hhosts : Hosts cells (reader :: outer) e) :
    Ordered cells (reader :: outer) limit e (readWith fresh ⟨reader⟩ id e s) := by
  have hconnect : ∀ p ∈ reader :: outer,
      ∀ c, (p, c) ∈ e.graph → (p, c) ∈ (e.connect id reader).graph :=
    fun p _ c hedge => Engine.mem_graph_connect.2 (.inr hedge)
  have hrun := ordered_executeWith h (reader :: outer) id {} (e.connect id reader) s
    (hhosts.mono (.connect e id reader) hconnect) fun r hr => by
      cases hr
      exact Engine.mem_graph_connect.2 (.inl ⟨rfl, rfl⟩)
  have hlook : Ordered cells (reader :: outer) limit e (lookUpWith fresh ⟨reader⟩ id e s) := by
    rw [lookUpWith_apply, Engine.apply_connect]
    split
    · exact .reply _ s
    · split
      · exact .reply _ s
      · have hquiet : Quiet (reader :: outer) [(.step (.connect id reader) : Event V)] :=
          .single rfl rfl
        exact hrun.between hquiet (fun _ => .nil _) (fun t => by simp) hconnect fun _ _ _ _ hedge =>
          hedge
  rw [readWith_apply]
  have hquiet : ∀ t : Turn V σ (Except Fault (Output V)),
      Quiet (reader :: outer) [.answered ⟨reader⟩ id t.reply] := fun t => .single trivial rfl
  exact hlook.between (.nil _) hquiet (fun _ => rfl) (fun _ _ _ hedge => hedge) fun _ _ _ _ hedge =>
    hedge

/-- Reads of the innermost run, one after the other. -/
theorem ordered_perform (h : FreshRun.Ordered cells limit fresh) (hframe : FreshRun.Framed fresh)
    {reader : CellId} {outer : List CellId} {program : Program V σ α}
    (hprogram : program.OnlyReads ⟨reader⟩) {e : Engine V} (s : σ)
    (hhosts : Hosts cells (reader :: outer) e) :
    Ordered cells (reader :: outer) limit e (perform fresh program e s) := by
  induction hprogram generalizing e s with
  | done state value =>
    rw [perform_done]
    exact .reply value state
  | inspect _ ih =>
    rw [perform_inspect]
    exact ih _ _ _ hhosts
  | @read state id next _ ih =>
    rw [perform_read]
    have hread := ordered_readWith h id state hhosts
    refine hread.bind (fun t ht => ih _ _ _ ?_) _ (fun _ _ => rfl) (fun _ _ => rfl)
    exact hhosts.mono (frame_of_readWith hframe ht) (hread.kept t ht)

/-- A cascade outside all runs. -/
theorem ordered_visitWith (h : FreshRun.Ordered cells limit fresh) (hframe : FreshRun.Framed fresh)
    (ids : List CellId) {e : Engine V} (s : σ) (hknown : ∀ id, e.contains id = true → id ∈ cells) :
    Ordered cells [] limit e (visitWith fresh ids e s) := by
  induction ids generalizing e s with
  | nil => exact .reply _ s
  | cons id ids ih =>
    rw [visitWith_cons]
    split
    · have hrun := ordered_executeWith h [] id {} e s (.idle hknown) (by simp)
      refine hrun.bind (fun t ht => ih t.state fun c hc => hknown c ?_) _ (fun _ _ => rfl)
        (fun _ _ => rfl)
      rwa [(framed_executeWith hframe id {} e s t ht).contains] at hc
    · exact ih s hknown

theorem ordered_cascadeWith (h : FreshRun.Ordered cells limit fresh)
    (hframe : FreshRun.Framed fresh) (id : CellId) {e : Engine V} (s : σ)
    (hknown : ∀ id, e.contains id = true → id ∈ cells) :
    Ordered cells [] limit e (cascadeWith fresh id e s) := by
  rw [cascadeWith_apply]
  exact (ordered_visitWith h hframe _ s hknown).between (.nil _) (fun _ => .nil _)
    (fun _ => by simp) (fun _ _ _ hedge => hedge) fun _ _ _ _ hedge => hedge

/-- An edit outside all runs. -/
theorem quiet_edit (operation : Edit) :
    Quiet (V := V) [] [.step (.edit operation)] := .single rfl rfl

theorem ordered_runRequestedWith (h : FreshRun.Ordered cells limit fresh) (request : Request)
    {e : Engine V} (s : σ) (hknown : ∀ id, e.contains id = true → id ∈ cells) :
    Ordered cells [] limit e (runRequestedWith fresh request e s) := by
  rw [runRequestedWith_apply]
  obtain ⟨-, hinvalid⟩ | ⟨cell, hcell, hinvalid⟩ := e.invalidate_cases request.cell
  all_goals rw [hinvalid]
  · exact .turn _ s (quiet_edit _)
  · have hrun := h [] request.cell request.overrides
      { e with cells := e.cells.insert request.cell cell.markStale }
      s (.idle fun id hid => hknown id (by rwa [Engine.contains_insert_markStale hcell] at hid))
        (by simp)
    exact hrun.between (quiet_edit (.invalidate request.cell)) (fun _ => .nil _)
      (fun _ => by simp) (by simp) (by simp)

theorem ordered_followUpWith (h : FreshRun.Ordered cells limit fresh)
    (hframe : FreshRun.Framed fresh) (id : CellId) (result : Except Fault (Output V)) {e : Engine V}
    (s : σ) (hknown : ∀ id, e.contains id = true → id ∈ cells) :
    Ordered cells [] limit e (followUpWith fresh id result e s) := by
  cases result with
  | error fault => exact .turn _ s (.nil _)
  | ok output =>
    rw [followUpWith_apply]
    have hcascade := ordered_cascadeWith h hframe id (e := e.markDescendantsStale id) s fun c hc =>
      hknown c (by rwa [Engine.contains_markDescendantsStale] at hc)
    exact hcascade.between (quiet_edit (.markDescendantsStale id)) (fun _ => .nil _)
      (fun _ => by simp) (by simp) (by simp)

/-- A request outside all runs, if the cells are those that its batch leaves. -/
theorem ordered_requestWith (h : FreshRun.Ordered cells limit fresh)
    (hframe : FreshRun.Framed fresh) (request : Request) {e : Engine V} (s : σ)
    (hknown : ∀ id, (e.update request.batch).contains id = true → id ∈ cells) :
    Ordered cells [] limit e (requestWith fresh request e s) := by
  rw [requestWith_apply]
  have hrun := ordered_runRequestedWith h request (e := e.prepared request.batch) s fun id hid =>
    hknown id (by rwa [Engine.contains_prepared] at hid)
  have hfollow : ∀ first, runRequestedWith fresh request (e.prepared request.batch) s = some first →
      Ordered cells [] limit first.engine
        (followUpWith fresh request.cell first.reply first.engine first.state) := by
    intro first hfirst
    refine ordered_followUpWith h hframe request.cell first.reply first.state
      fun id hid => hknown id ?_
    rwa [(frame_of_runRequestedWith hframe hfirst).contains, Engine.contains_prepared] at hid
  have hboth := hrun.bind hfollow (fun first second =>
    ⟨(first.reply, second.reply), second.engine, second.state, first.events ++ second.events⟩)
    (fun _ _ => rfl) fun _ _ => rfl
  have hbefore : Quiet (V := V) [] [.step (.edit (.update request.batch)),
      .step (.edit (.addLinks (e.update request.batch).declarations)),
        .step (.edit .resetDidRun)] := by
    intro event hevent
    simp only [List.mem_cons, List.not_mem_nil, or_false] at hevent
    obtain rfl | rfl | rfl := hevent <;> exact ⟨rfl, rfl⟩
  have hwhole := hboth.between (e := e) (β := Report V) (f := fun t =>
    { reply := {
        cell := request.cell
        result := t.reply.1
        cascade := t.reply.2
        cells := t.engine.snapshots
        edges := t.engine.graph.edges
        deleted := t.engine.deleted }
      engine := t.engine.dropDeleted
      state := t.state
      events := _ ++ t.events ++ _ }) hbefore (fun _ => quiet_edit .dropDeleted) (fun _ => rfl)
        (by simp) (by simp)
  simpa only [Option.map_bind, Option.map_map, Function.comp_def, List.append_assoc] using hwhole

end

/-! ## 4. Runs -/

/-- A run ends with a publication or a failure, and only edges out of its own cell are
taken away. -/
theorem Turn.concluded_inside (t : Turn V σ (Except RunFailure (Output V))) (id : CellId)
    (runs : List CellId) (slot : Option CellId) :
    ∃ last : Step V,
      (t.concluded id slot).events =
        .step (.beginRun id) :: (t.events ++ [.step last, .step (.resume slot)]) ∧
      Quiet (id :: runs) [.step last] ∧
      ∀ p c, p ≠ id → (p, c) ∈ t.engine.graph → (p, c) ∈ (t.concluded id slot).engine.graph := by
  obtain ⟨last, hlast, hevents, hengine⟩ := t.concluded_last id slot
  refine ⟨last, hevents, ?_, fun p c hp hedge => ?_⟩
  · obtain rfl | ⟨output, rfl⟩ := hlast
    · exact .single rfl rfl
    · exact .single ⟨rfl, rfl⟩ rfl
  · rw [hengine]
    show (p, c) ∈ (t.engine.apply last).graph
    obtain rfl | ⟨output, rfl⟩ := hlast
    · exact Engine.mem_graph_failRun.2 ⟨hedge, fun h => hp h.1⟩
    · rwa [Engine.graph_apply_write]

/-- **No run begins inside a run of the same cell.** -/
theorem ordered_runFresh {runner : Runner V σ} (hr : runner.OnlyReads) (cells : List CellId)
    (limit : Nat) : FreshRun.Ordered cells limit (runFresh runner limit) := by
  induction limit with
  | zero =>
    intro runs id overrides e s hhosts hread
    rw [runFresh_zero]
    split
    · exact .reply _ s
    · rename_i hcycle
      split
      · exact .reply _ s
      · rename_i cell hcell
        have hin : e.contains id = true := Engine.contains_of_cell hcell
        have hstack := hhosts.beginRun hread (by simpa using hcycle) hin
        have hlength := hstack.length_le
        rw [List.length_cons] at hlength
        exact ⟨fun _ => by omega, by simp, by simp, by simp, by simp⟩
  | succ limit ih =>
    intro runs id overrides e s hhosts hread
    rw [runFresh_succ]
    split
    · exact .reply _ s
    · rename_i hcycle
      split
      · exact .reply _ s
      · rename_i cell hcell
        have hin : e.contains id = true := Engine.contains_of_cell hcell
        have hstack := hhosts.beginRun hread (by simpa using hcycle) hin
        have hrun := ordered_perform ih (framed_runFresh hr limit)
          (hr.programOf id overrides e s cell) s hstack
        have hfresh : id ∉ runs := (List.nodup_cons.1 hstack.nodup).1
        refine ⟨fun hnone => ?_, ?_, ?_, ?_, ?_⟩
        · have := hrun.returns (Option.map_eq_none_iff.1 hnone)
          simp only [List.length_cons] at this
          omega
        all_goals
          intro t ht
          obtain ⟨run, hperformed, rfl⟩ := Option.map_eq_some_iff.1 ht
          obtain ⟨last, hevents, hquiet, hedges⟩ := run.concluded_inside id runs e.executing
        · rw [hevents]
          refine ⟨hfresh, orderly_append.2 ⟨hrun.orderly run hperformed, ?_⟩⟩
          show Orderly (openRuns (id :: runs) run.events) _
          rw [hrun.closed run hperformed]
          exact ⟨(hquiet _ List.mem_cons_self).1, trivial, trivial⟩
        · rw [hevents]
          show openRuns (id :: runs) (run.events ++ _) = runs
          rw [openRuns_append, hrun.closed run hperformed, openRuns_cons,
            (hquiet _ List.mem_cons_self).2]
          rfl
        · intro c hc
          rw [hevents, List.mem_cons, List.mem_append] at hc
          obtain hc | hc | hc := hc
          · cases hc
            exact hhosts.known id hin
          · exact hrun.begun run hperformed c hc
          · have hresume : Quiet (V := V) [] [.step (.resume e.executing)] := .single trivial rfl
            rcases List.mem_cons.1 hc with hc | hc
            · exact absurd (List.mem_singleton.2 hc) hquiet.not_beginRun
            · exact absurd hc hresume.not_beginRun
        · intro p hp c hedge
          exact hedges p c (fun h => hfresh (h ▸ hp))
            (hrun.kept run hperformed p (.tail _ hp) c hedge)

/-! ## 5. What is asked from outside -/

/-- The command needs no context, so it can be given outside all runs. -/
def Command.FromOutside : Command V → Prop
  | .read _ _ => False
  | .write _ _ _ => False
  | _ => True

/-- Outside all runs, whatever cells there are. -/
theorem ordered_carryOut {runner : Runner V σ} (hr : runner.OnlyReads) {command : Command V}
    (h : command.FromOutside) (limit : Nat) (e : Engine V) (s : σ) :
    ∃ cells, Ordered cells [] limit e (carryOut (runFresh runner limit) command e s) := by
  have hkeys : ∀ (e : Engine V) id, e.contains id = true → id ∈ e.cells.keys := fun e id hid =>
    ExtTreeMap.mem_keys.2 hid
  cases command with
  | edit operation =>
    have hreply : Ordered [] [] limit (e.apply (.edit operation))
        (some ⟨_, e.apply (.edit operation), s, []⟩) :=
      .reply ((e.step (.edit operation)).map fun _ => ()) s
    exact ⟨[], hreply.between (f := fun t => t.behind [.step (.edit operation)])
      (quiet_edit operation) (fun _ => .nil _) (fun _ => by simp) (by simp) (by simp)⟩
  | inspect => exact ⟨[], .reply e s⟩
  | read context id => exact h.elim
  | write context id output => exact h.elim
  | execute id overrides =>
    exact ⟨_, ordered_executeWith (ordered_runFresh hr _ limit) [] id overrides e s
      (.idle (hkeys e)) (by simp)⟩
  | cascade id =>
    exact ⟨_, ordered_cascadeWith (ordered_runFresh hr _ limit)
      (framed_runFresh hr limit) id s (hkeys e)⟩
  | request request =>
    exact ⟨_, ordered_requestWith (ordered_runFresh hr _ limit)
      (framed_runFresh hr limit) request s (hkeys _)⟩

/-- No run begins while a run of the same cell is in progress, and never are more runs in
progress than the bound allows. -/
structure WellNested (bound : Nat) (events : List (Event V)) : Prop where
  fresh : ∀ before id after, events = before ++ .step (.beginRun id) :: after →
    id ∉ openRuns [] before
  depth : ∀ before after, events = before ++ after → (openRuns [] before).length ≤ bound

theorem Ordered.wellNested {cells : List CellId} {limit : Nat} {e : Engine V}
    {outcome : Option (Turn V σ α)} (h : Ordered cells [] limit e outcome) {t : Turn V σ α}
    (ht : outcome = some t) : WellNested cells.length t.events where
  fresh before id after hevents := (hevents ▸ h.orderly t ht).fits
  depth before after hevents := by
    have horderly : Orderly [] before := (orderly_append.1 (hevents ▸ h.orderly t ht)).1
    refine (List.subperm_of_subset (horderly.nodup List.nodup_nil) fun id hid => ?_).length_le
    have hbegun : .step (.beginRun id) ∈ before := (mem_openRuns hid).resolve_left List.not_mem_nil
    exact h.begun t ht id (by rw [hevents]; exact List.mem_append_left _ hbegun)

/-- The limit for the nesting is of no account once it is the number of cells. -/
theorem returns_of_ordered {cells : List CellId} {e : Engine V} {s : σ} {act : Nat → Act V σ α}
    (hextends : ∀ limit limit', limit ≤ limit' → (act limit).Extends (act limit'))
    (h : ∀ limit, Ordered cells [] limit e (act limit e s)) :
    ∃ t, (∀ limit, cells.length ≤ limit → act limit e s = some t) ∧
      WellNested cells.length t.events := by
  cases hout : act cells.length e s with
  | none => exact absurd ((h cells.length).returns hout) (Nat.lt_irrefl _)
  | some t =>
    exact ⟨t, fun limit hlimit => hextends _ _ hlimit e s t hout, (h cells.length).wellNested hout⟩

/-- With as many levels as there may be cells an execution returns. -/
theorem Runner.OnlyReads.execute_returns_among {runner : Runner V σ} (hr : runner.OnlyReads)
    {cells : List CellId} {e : Engine V} (hknown : ∀ c, e.contains c = true → c ∈ cells)
    (id : CellId) (overrides : FlagOverrides) (s : σ) :
    ∃ t, ∀ limit, cells.length ≤ limit → runner.execute limit id overrides e s = some t := by
  obtain ⟨t, ht, -⟩ := returns_of_ordered
    (fun _ _ hle => extends_executeWith (extends_runFresh runner hle) id overrides)
    fun limit => ordered_executeWith (ordered_runFresh hr _ limit) [] id overrides e s
      (.idle hknown) (by simp)
  exact ⟨t, ht⟩

theorem Runner.OnlyReads.execute_returns {runner : Runner V σ} (hr : runner.OnlyReads) (id : CellId)
    (overrides : FlagOverrides) (e : Engine V) (s : σ) :
    ∃ t, ∀ limit, e.cells.size ≤ limit → runner.execute limit id overrides e s = some t := by
  rw [← ExtTreeMap.length_keys]
  exact hr.execute_returns_among (fun c hc => ExtTreeMap.mem_keys.2 hc) id overrides s

/-- **Every call returns, and its runs are well nested.** The runner only reads, and is free
otherwise: it may depend on its state, disregard what it is answered, and read in circles. -/
theorem Runner.OnlyReads.returns_wellNested {runner : Runner V σ} (hr : runner.OnlyReads)
    (e : Engine V) (s : σ) :
    (∀ id overrides, ∃ t,
      (∀ limit, e.cells.size ≤ limit → runner.execute limit id overrides e s = some t) ∧
      WellNested e.cells.size t.events) ∧
    (∀ id, ∃ t, (∀ limit, e.cells.size ≤ limit → runner.cascade limit id e s = some t) ∧
      WellNested e.cells.size t.events) ∧
    (∀ request : Request, ∃ t, (∀ limit, (e.update request.batch).cells.size ≤ limit →
        runner.request limit request e s = some t) ∧
      WellNested (e.update request.batch).cells.size t.events) := by
  have hkeys : ∀ (e : Engine V) id, e.contains id = true → id ∈ e.cells.keys := fun e id hid =>
    ExtTreeMap.mem_keys.2 hid
  refine ⟨fun id overrides => ?_, fun id => ?_, fun request => ?_⟩
  · rw [← ExtTreeMap.length_keys]
    exact returns_of_ordered
      (fun _ _ hle => extends_executeWith (extends_runFresh runner hle) id overrides)
      fun limit => ordered_executeWith (ordered_runFresh hr _ limit) [] id overrides e s
        (.idle (hkeys e)) (by simp)
  · rw [← ExtTreeMap.length_keys]
    exact returns_of_ordered (fun _ _ hle => extends_cascadeWith (extends_runFresh runner hle) id)
      fun limit => ordered_cascadeWith (ordered_runFresh hr _ limit)
        (framed_runFresh hr limit) id s (hkeys e)
  · rw [← ExtTreeMap.length_keys]
    exact returns_of_ordered
      (fun _ _ hle => extends_requestWith (extends_runFresh runner hle) request)
      fun limit => ordered_requestWith (ordered_runFresh hr _ limit)
        (framed_runFresh hr limit) request s (hkeys _)

/-- Of two cells each reads the other one, and disregards the reply. -/
def mutualReader : Runner Unit Unit := fun context request state =>
  .ask state (.read context ⟨1 - request.cell.value⟩) fun s _ => .done s (.ok (.plain ()))

/-- Two cells that declare nothing. -/
def twoCells : Engine Unit :=
  Engine.new.update ((∅ : Batch).insert ⟨0⟩ (.ofCode "read 1") |>.insert ⟨1⟩ (.ofCode "read 0"))

theorem mutualReader_onlyReads : mutualReader.OnlyReads := fun _ _ =>
  .read fun s _ => .done s _

/-- The circle is noticed, and the call returns. -/
theorem mutualReader_returns : ∃ t,
    (∀ limit, 2 ≤ limit → mutualReader.execute limit ⟨0⟩ {} twoCells () = some t) ∧
      WellNested 2 t.events :=
  have hsize : twoCells.cells.size = 2 := by decide +kernel
  hsize ▸ (mutualReader_onlyReads.returns_wellNested twoCells ()).1 ⟨0⟩ {}

end Notebook
