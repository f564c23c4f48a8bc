import Notebook.Proofs.Run.Chronicle
import Notebook.Proofs.Run.Saved

/-!
# Where edges come from

Nothing is assumed of the runner here, and contexts may be kept and used at any time. An
edge is there because its child declares its parent, or because it was restored, or because
a read has recorded it, and a read finds its parent in the table. What a batch does to a
cell that is deleted, or whose persistent code changes, takes the recorded edges to it away,
and so does clearing. Therefore

> **no edge is spurious**: if nothing was restored, an edge is declared, or a read has recorded
> it since its child was last deleted or had its persistent code changed, and since the
> notebook was last cleared.

A read does not ask whether the cell that its context names is in the table, though everything
else that brings edges does. So the parent of an edge is always in the table, and

> **an edge can only dangle at its child**, and only as long as the cell that a read was made for
> has not been in the table again.
-/

set_option autoImplicit false

namespace Notebook

open Std

variable {V σ : Type}

/-! ## 1. One step -/

/-- Does the step take away what was recorded of the reads of `c`? -/
def Step.Detaches (c : CellId) (e : Engine V) : Step V → Prop
  | .edit (.update batch) => e.Uproots batch c
  | .edit .clear => True
  | _ => False

namespace Engine

/-- The edge was there before the step. The step does not detach its child, and it leaves the ends
of the edge where they are, and the declaration if there is one. -/
structure Survives (e : Engine V) (s : Step V) (p c : CellId) : Prop where
  edge : (p, c) ∈ e.graph
  attached : ¬ s.Detaches c e
  parent : e.contains p = true → (e.apply s).contains p = true
  child : e.contains c = true → (e.apply s).contains c = true
  declares : e.Declares p c → (e.apply s).Declares p c

theorem Survives.of_told {e : Engine V} {s : Step V} {p c : CellId} (hedge : (p, c) ∈ e.graph)
    (hattached : ¬ s.Detaches c e) (htold : ∀ c, (e.apply s).told c = e.told c) :
    e.Survives s p c where
  edge := hedge
  attached := hattached
  parent hp := by rwa [contains_of_told (htold p)]
  child hc := by rwa [contains_of_told (htold c)]
  declares := Declares.of_told htold

namespace Survives

variable {e : Engine V} {p c : CellId}

theorem of_silent {operation : Edit} (hsilent : operation.Silent)
    (h : (p, c) ∈ (e.apply (.edit operation)).graph) : e.Survives (.edit operation) p c := by
  obtain ⟨hgraph, -, htold⟩ := apply_of_silent hsilent e
  refine .of_told (hgraph ▸ h) (fun hdetaches => ?_) htold
  cases operation with
  | update | clear => exact hsilent
  | _ => exact hdetaches

/-- A declaration that the batch does not repeat is withdrawn with its edge. -/
theorem update {batch : Batch} (hedge : (p, c) ∈ e.graph) (hp : p ∉ e.leftOut batch)
    (hc : c ∉ e.leftOut batch) (hsame : c ∉ e.changedBy batch)
    (hkept : (p, c) ∉ e.withdrawnBy batch) : e.Survives (.edit (.update batch)) p c := by
  have hstays : ∀ id, id ∉ e.leftOut batch → e.contains id = true →
      (e.update batch).contains id = true := by
    intro id hid hin
    rw [contains_update]
    exact contains_of_not_mem_leftOut hin hid
  refine ⟨hedge, fun h => h.elim hc hsame, hstays p hp, hstays c hc, ?_⟩
  rintro ⟨hin, cell, hcell, hdeclares⟩
  obtain ⟨cell', hcell'⟩ := exists_cell_of_contains (hstays c hc (contains_of_cell hcell))
  obtain ⟨r, hr, hinputs⟩ := inputs_of_getElem?_update hcell'
  have hold : e.cellOrNew c = cell := by rw [cellOrNew, hcell, Option.getD_some]
  refine ⟨hstays p hp hin, cell', hcell', ?_⟩
  rw [Cell.declares, hinputs]
  by_contra hnot
  refine hkept (mem_withdrawnBy.2 ⟨r, hr, ?_, hold ▸ hdeclares, Bool.eq_false_iff.2 hnot⟩)
  rw [Bool.eq_false_iff]
  exact fun hchanged => hsame (mem_changedBy.2 ⟨r, hr, hchanged⟩)

end Survives

/-- **Where an edge comes from**: it is declared, recorded or restored, or it was there before. -/
theorem mem_graph_apply {e : Engine V} {s : Step V} {p c : CellId}
    (h : (p, c) ∈ (e.apply s).graph) :
    (e.apply s).Declares p c ∨ s = .connect p c ∨
      (∃ document, s = .edit (.restore document) ∧ (e.apply s).contains p = true ∧
        (e.apply s).contains c = true) ∨
      e.Survives s p c := by
  cases s with
  | edit operation =>
    cases operation with
    | update batch =>
      obtain hdeclared | ⟨hedge, hp, hc, hsame, hkept⟩ := mem_graph_update.1 h
      · exact .inl (declares_update.2 hdeclared)
      · exact .inr (.inr (.inr (.update hedge hp hc hsame hkept)))
    | clear => exact absurd h (Graph.not_mem_empty (p, c))
    | restore document =>
      obtain ⟨hp, hc, -⟩ := mem_graph_restore.1 h
      rw [← e.contains_restore document] at hp hc
      exact .inr (.inr (.inl ⟨document, rfl, hp, hc⟩))
    | _ => exact .inr (.inr (.inr (.of_silent (by trivial) h)))
  | connect parent child =>
    obtain ⟨rfl, rfl⟩ | hedge := mem_graph_connect.1 h
    · exact .inr (.inl rfl)
    · exact .inr (.inr (.inr (.of_told hedge id fun _ => rfl)))
  | beginRun id => exact .inr (.inr (.inr (.of_told h (fun h => h) (e.told_beginRun id))))
  | failRun id =>
    exact .inr (.inr (.inr (.of_told (mem_graph_failRun.1 h).1 (fun h => h) (e.told_failRun id))))
  | resume slot => exact .inr (.inr (.inr (.of_told h (fun h => h) fun _ => rfl)))
  | write context id output =>
    rw [graph_apply_write] at h
    exact .inr (.inr (.inr (.of_told h (fun h => h) (e.told_apply_write context id output))))

end Engine

/-! ## 2. Reads -/

/-- An edge is recorded by a read: the cell that is read is in the table, and the
reader is answered later. -/
def Law.reads : Law V
  | e, before, .step (.connect p c), behind =>
    (e.after before).contains p = true ∧ ∃ reply, .answered ⟨c⟩ p reply ∈ behind
  | _, _, _, _ => True

namespace Law

theorem lasting_reads : (reads : Law V).Lasting where
  earlier e first before event behind h := by
    cases event with
    | step s =>
      cases s with
      | connect p c => rwa [reads, Engine.after_append]
      | _ => trivial
    | _ => trivial
  later e before event behind last h := by
    cases event with
    | step s =>
      cases s with
      | connect p c =>
        obtain ⟨hin, reply, hreply⟩ := h
        exact ⟨hin, reply, List.mem_append_left last hreply⟩
      | _ => trivial
    | _ => trivial

theorem sequential_reads : Act.Sequential (V := V) (σ := σ) fun act => act.Obeys reads where
  toComposed := lasting_reads.composed
  edit _ := lasting_reads.obeys_step fun _ => trivial

theorem obeys_reads_readWith {fresh : FreshRun V σ} (hfresh : fresh.Obeys reads) (context : Context)
    (id : CellId) : (readWith fresh context id).Obeys reads := by
  intro e s t ht
  obtain ⟨-, rfl⟩ | ⟨-, rfl⟩ | ⟨run, hin, -, hrun, rfl⟩ := readWith_cases ht
  · exact ⟨rfl, lasting_reads.concat (holds_nil _ e) trivial⟩
  · exact ⟨rfl, lasting_reads.concat (holds_nil _ e) trivial⟩
  obtain ⟨hengine, hinside⟩ := sequential_reads.executeWith hfresh id {} _ s run hrun
  refine ⟨?_, lasting_reads.cons ⟨hin, run.reply.map Output.view, ?_⟩
    (lasting_reads.concat hinside trivial)⟩
  · show run.engine = (e.connect id context.cell).after (run.events ++ _)
    rw [Engine.after_append, ← Engine.apply_connect, ← hengine]
    rfl
  · exact List.mem_append_right _ (List.mem_singleton_self _)

/-- Whatever the runner does, an edge is only recorded by a read. -/
theorem governs_reads (runner : Runner V σ) : reads.Governs runner fun _ => True where
  toLasting := lasting_reads
  asks request state := Program.asks_anything _
  command fresh hfresh command _ := by
    cases command with
    | read context id => exact obeys_reads_readWith hfresh context id
    | write context id output => exact lasting_reads.obeys_step fun _ => trivial
    | _ => exact sequential_reads.carryOut hfresh trivial
  beginRun _ _ := trivial
  failRun _ _ := trivial
  resume _ _ := trivial
  write _ _ _ _ _ _ _ _ _ _ _ := trivial

end Law

theorem Runner.History.obeys_reads {runner : Runner V σ} {allowed : Engine V → Command V → Prop}
    {start e : Engine V} {events : List (Event V)} (h : runner.History allowed start events e) :
    Law.reads.Holds start events :=
  h.obeys Law.lasting_reads fun e command limit s t _ _ _ ht =>
    ((Law.governs_reads runner).command _ ((Law.governs_reads runner).runFresh limit) command
      trivial e s t ht).2

/-! ## 3. No spurious edges -/

/-- Is a saved notebook restored? -/
def Event.restores : Event V → Bool
  | .step (.edit (.restore _)) => true
  | _ => false

namespace Engine

/-- A read has recorded the edge, and nothing has detached its child since. -/
def Recorded (start : Engine V) (events : List (Event V)) (p c : CellId) : Prop :=
  Since (fun _ s => s = .connect p c) (Step.Detaches c) start events

/-- Every edge is declared or recorded. -/
def Accounted (start : Engine V) (events : List (Event V)) : Prop :=
  ∀ p c, (p, c) ∈ (start.after events).graph → (start.after events).Declares p c ∨
    Recorded start events p c

theorem Recorded.concat {start : Engine V} {events : List (Event V)} {p c : CellId}
    (h : Recorded start events p c) {event : Event V}
    (hattached : ∀ s, event = .step s → ¬ s.Detaches c (start.after events)) :
    Recorded start (events ++ [event]) p c :=
  since_concat.2 (.inr ⟨h, hattached⟩)

theorem Accounted.concat {start : Engine V} {events : List (Event V)} (h : start.Accounted events)
    {event : Event V} (hrestore : event.restores = false) :
    start.Accounted (events ++ [event]) := by
  intro p c hedge
  rw [after_append] at hedge ⊢
  cases event with
  | step s =>
    obtain hdeclared | rfl | ⟨document, rfl, -⟩ | hsurvives := mem_graph_apply hedge
    · exact .inl hdeclared
    · exact .inr (since_concat.2 (.inl ⟨_, rfl, rfl⟩))
    · cases hrestore
    · refine (h p c hsurvives.edge).imp hsurvives.declares fun hrecorded =>
        hrecorded.concat fun other hother => ?_
      cases hother
      exact hsurvives.attached
  | answered context id reply =>
    exact (h p c hedge).imp_right fun hrecorded => hrecorded.concat nofun
  | bound name value => exact (h p c hedge).imp_right fun hrecorded => hrecorded.concat nofun

end Engine

/-- **No edge is spurious**, at any moment in the course of the history. -/
theorem Runner.History.accounted {runner : Runner V σ} {allowed : Engine V → Command V → Prop}
    {flags : RunFlags} {events : List (Event V)} {e : Engine V}
    (h : runner.History allowed (.withFlags flags) events e)
    (hrestore : ∀ event ∈ events, event.restores = false) :
    e = (Engine.withFlags flags).after events ∧ Law.reads.Holds (.withFlags flags) events ∧
    ∀ before later, events = before ++ later →
      let now := (Engine.withFlags flags).after before
      ∀ p c, (p, c) ∈ now.graph → now.Declares p c ∨
        Engine.Recorded (.withFlags flags) before p c := by
  have hlaw : Law.Holds (fun _ _ event _ => event.restores = false) (.withFlags flags) events := by
    rintro before event behind rfl
    exact hrestore event (List.mem_append_right before List.mem_cons_self)
  exact ⟨h.eq_after, h.obeys_reads,
    hlaw.induct (fun p c hedge => absurd hedge (Graph.not_mem_empty (p, c)))
    fun _ _ _ hevent hbefore => Engine.Accounted.concat hbefore hevent⟩

/-- Cell 1 declares the one edge, and the other one was recorded by the read of cell 0. -/
theorem mutualReader_accounted :
    ∃ events e, mutualReader.session 3 readInCircle (.withFlags {}) () = some (events, e) ∧
    e.graph.edges = [(⟨0⟩, ⟨1⟩), (⟨1⟩, ⟨0⟩)] ∧ ¬ e.Declares ⟨1⟩ ⟨0⟩ ∧
      Engine.Recorded (.withFlags {}) events ⟨1⟩ ⟨0⟩ := by
  obtain ⟨⟨events, e⟩, hsession, hfound⟩ : ∃ found,
      mutualReader.session 3 readInCircle (.withFlags {}) () = some found ∧
        (decide (found.2.graph.edges = [(⟨0⟩, ⟨1⟩), (⟨1⟩, ⟨0⟩)]) &&
          !(found.2.cells[(⟨0⟩ : CellId)]?).any (fun cell => cell.declares ⟨1⟩) &&
          found.1.all fun event => !event.restores) = true :=
    (Option.any_eq_true _ _).1 (by decide +kernel)
  simp only [Bool.and_eq_true, decide_eq_true_eq, Bool.not_eq_true', List.all_eq_true] at hfound
  obtain ⟨⟨hedges, hundeclared⟩, hnone⟩ := hfound
  have hstart : mutualReader.History (fun _ _ => True) (.withFlags {}) [] (.withFlags {}) := .start
  have hhistory := hstart.append_session (fun _ _ _ => trivial) hsession
  obtain ⟨he, -, haccounted⟩ := hhistory.accounted hnone
  have hnot : ¬ e.Declares ⟨1⟩ ⟨0⟩ := by
    rintro ⟨-, cell, hcell, hdeclares⟩
    rw [hcell, Option.any_some, hdeclares] at hundeclared
    cases hundeclared
  have hedge : ((⟨1⟩, ⟨0⟩) : CellId × CellId) ∈ e.graph := by
    rw [← Graph.mem_edges, hedges]
    simp
  refine ⟨events, e, hsession, hedges, hnot, ?_⟩
  subst he
  exact (haccounted events [] (List.append_nil events).symm ⟨1⟩ ⟨0⟩ hedge).resolve_left hnot

/-! ## 4. Dangling edges -/

theorem Engine.Declares.contains {e : Engine V} {p c : CellId} (h : e.Declares p c) :
    e.contains p = true ∧ e.contains c = true :=
  ⟨h.1, let ⟨_, hcell, _⟩ := h.2; contains_of_cell hcell⟩

namespace Engine

/-- A read has recorded the edge for a cell that was not in the table, and the cell
has not been there since. -/
def Dangles (start : Engine V) (events : List (Event V)) (p c : CellId) : Prop :=
  Since (fun e s => s = .connect p c ∧ e.contains c = false)
    (fun e s => (e.apply s).contains c = true) start events

/-- The parent of every edge is in the table, and so is its child unless the edge dangles. -/
def Joined (start : Engine V) (events : List (Event V)) : Prop :=
  ∀ p c, (p, c) ∈ (start.after events).graph → (start.after events).contains p = true ∧
    ((start.after events).contains c = true ∨ Dangles start events p c)

/-- What dangles does so as long as its child is not in the table. -/
theorem Dangles.concat {start : Engine V} {events : List (Event V)} {p c : CellId}
    (h : Dangles start events p c) {event : Event V}
    (hnow : ((start.after events).after [event]).contains c = false) :
    Dangles start (events ++ [event]) p c := by
  refine since_concat.2 (.inr ⟨h, ?_⟩)
  rintro s rfl hin
  exact Bool.noConfusion (hnow.symm.trans hin)

/-- One more event. A read finds its parent in the table. -/
theorem Joined.concat {start : Engine V} {events behind : List (Event V)} (h : start.Joined events)
    {event : Event V} (hread : Law.reads start events event behind) :
    start.Joined (events ++ [event]) := by
  intro p c hedge
  rw [after_append] at hedge ⊢
  have hold : (p, c) ∈ (start.after events).graph →
      ((start.after events).contains p = true →
        ((start.after events).after [event]).contains p = true) →
      ((start.after events).contains c = true →
        ((start.after events).after [event]).contains c = true) →
      ((start.after events).after [event]).contains p = true ∧
        (((start.after events).after [event]).contains c = true ∨
          Dangles start (events ++ [event]) p c) := by
    intro hbefore hparent hchild
    obtain ⟨hp, hc⟩ := h p c hbefore
    refine ⟨hparent hp, ?_⟩
    cases hnow : ((start.after events).after [event]).contains c with
    | true => exact .inl rfl
    | false =>
      refine .inr ((hc.resolve_left fun hc => ?_).concat hnow)
      exact Bool.noConfusion (hnow.symm.trans (hchild hc))
  cases event with
  | step s =>
    obtain hdeclared | rfl | ⟨document, rfl, hp, hc⟩ | hsurvives := mem_graph_apply hedge
    · exact ⟨hdeclared.contains.1, .inl hdeclared.contains.2⟩
    · refine ⟨hread.1, ?_⟩
      cases hc : (start.after events).contains c with
      | true => exact .inl hc
      | false => exact .inr (since_concat.2 (.inl ⟨_, rfl, rfl, hc⟩))
    · exact ⟨hp, .inl hc⟩
    · exact hold hsurvives.edge hsurvives.parent hsurvives.child
  | answered context id reply => exact hold hedge (fun h => h) fun h => h
  | bound name value => exact hold hedge (fun h => h) fun h => h

end Engine

/-- **An edge can only dangle at its child**, at any moment in the course of the history. -/
theorem Runner.History.joined {runner : Runner V σ} {allowed : Engine V → Command V → Prop}
    {flags : RunFlags} {events : List (Event V)} {e : Engine V}
    (h : runner.History allowed (.withFlags flags) events e) :
    ∀ before later, events = before ++ later → (Engine.withFlags flags).Joined before :=
  h.obeys_reads.induct (fun p c hedge => absurd hedge (Graph.not_mem_empty (p, c)))
    fun _ _ _ hread hbefore => hbefore.concat hread

/-- A context that is kept from a run of a cell that was deleted brings an edge to it back. -/
example :
    (mutualReader.session 1 [.edit (.update ((∅ : Batch).insert ⟨0⟩ {})), .read ⟨⟨7⟩⟩ ⟨0⟩]
        (.withFlags {}) ()).map (fun found => (found.2.graph.edges, found.2.contains ⟨7⟩)) =
      some ([(⟨0⟩, ⟨7⟩)], false) := by
  decide +kernel

end Notebook
