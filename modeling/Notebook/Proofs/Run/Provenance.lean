import Notebook.Proofs.Engine.Edits
import Notebook.Proofs.Run.History

/-!
# What an output was made from

A cell stores what some run of it published, and that run may have read another cell `p`. When the
code of `p` changes the stored output is out of date. The engine finds this out by the edge that
the read has recorded, so it does only as long as the edge is there.

Three things take the edge away and leave the reader as it is: a failure of `p`, if the reader
does not declare `p`; a batch that leaves `p` out; and a batch that withdraws the reader's
declaration of `p`. These are the *severances*. Apart from them

> **a change of code reaches every reader**: what was published after a read of `p` is stale after
> a batch that changes the code of `p`.

Whatever else takes the edge away makes the reader stale, or happens when the reader is stale
already. And each of the three severances is needed, as the examples at the end show.
-/

set_option autoImplicit false

namespace Notebook

open Std

variable {V σ : Type}

/-! ## 1. Readers and severances -/

/-- The ways to cut a reader off from what it read, and not to make it stale. -/
inductive Severance where
  | failure
  | leavingOut
  | withdrawal
  deriving DecidableEq

/-- Does the step cut `c` off from `p`, in this way? -/
def Step.severs (e : Engine V) (p c : CellId) : Severance → Step V → Bool
  | .failure, .failRun id => id = p && !(e.cells[c]?).any fun cell => cell.declares p
  | .leavingOut, .edit (.update batch) => e.contains p && !batch.contains p
  | .withdrawal, .edit (.update batch) => decide ((p, c) ∈ e.withdrawnBy batch)
  | _, _ => false

/-- What is remembered of the events so far about a reader `c` and a cell `p`. -/
structure Provenance (V : Type) where
  engine : Engine V
  /-- Has the run of `c` that began last read `p`? -/
  reading : Bool := false
  /-- Was the output that `c` stores published by a run that had read `p`? -/
  stored : Bool := false

/-- One more event. The read counts for nothing any more if one of the given severances happens. -/
def Provenance.after (cuts : List Severance) (p c : CellId) (w : Provenance V) :
    Event V → Provenance V
  | .step st =>
    let cut := cuts.any fun kind => st.severs w.engine p c kind
    let now : Provenance V := match st with
      | .beginRun id => { w with reading := w.reading && id ≠ c }
      | .connect parent child => { w with reading := w.reading || (parent = p && child = c) }
      | .write _ id _ => { w with stored := if id = c then w.reading else w.stored }
      | .failRun id => { w with stored := w.stored && id ≠ c }
      | _ => w
    { engine := w.engine.apply st, reading := now.reading && !cut, stored := now.stored && !cut }
  | _ => w

/-- What is remembered in the end. -/
def provenance (cuts : List Severance) (p c : CellId) (start : Engine V) (events : List (Event V)) :
    Provenance V :=
  events.foldl (Provenance.after cuts p c) ⟨start, false, false⟩

/-- All severances. -/
def Severance.all : List Severance := [.failure, .leavingOut, .withdrawal]

theorem engine_provenance (cuts : List Severance) (p c : CellId) (start : Engine V)
    (events : List (Event V)) :
    (provenance cuts p c start events).engine = start.replay (events.filterMap Event.step?) := by
  have hfold : ∀ w : Provenance V, (events.foldl (Provenance.after cuts p c) w).engine =
      w.engine.replay (events.filterMap Event.step?) := by
    induction events with
    | nil => exact fun _ => rfl
    | cons event events ih =>
      intro w
      rw [List.foldl_cons, ih]
      cases event <;> rfl
  exact hfold _

/-! ## 2. Edges and staleness -/

/-- A change of `p` would be noticed: there is an edge, or `c` is stale already or not there. -/
def Engine.Tracks (e : Engine V) (p c : CellId) : Prop :=
  (p, c) ∈ e.graph ∨ ∀ cell, e.cells[c]? = some cell → cell.stale = true

namespace Engine.Tracks

variable {e e' : Engine V} {p c : CellId}

theorem step (h : e.Tracks p c) (hedge : (p, c) ∈ e.graph → (p, c) ∈ e'.graph)
    (hfresh : e.WasFresh e' c) : e'.Tracks p c := by
  rcases h with h | h
  · exact .inl (hedge h)
  · refine .inr fun cell' hcell' => ?_
    by_contra hnot
    obtain ⟨cell, hcell, hstale, -⟩ := hfresh cell' hcell' (by simpa using hnot)
    rw [h cell hcell] at hstale
    exact Bool.noConfusion hstale

/-- A batch that is no severance either keeps the edge or makes the reader stale. -/
theorem update (h : e.Tracks p c) {batch : Batch}
    (hp : e.contains p = true → batch.contains p = true) (hkept : (p, c) ∉ e.withdrawnBy batch) :
    (e.update batch).Tracks p c := by
  by_cases hstale : ∀ cell, (e.update batch).cells[c]? = some cell → cell.stale = true
  · exact .inr hstale
  · simp only [not_forall] at hstale
    obtain ⟨cell, hcell, hfresh⟩ := hstale
    obtain ⟨old, r, hold, hr, -, holdstale, -, -, hc, -⟩ :=
      Engine.fresh_of_update hcell (by simpa using hfresh)
    have hedge : (p, c) ∈ e.graph := by
      refine h.resolve_right fun h => ?_
      rw [h old hold] at holdstale
      exact Bool.noConfusion holdstale
    have hpin : p ∉ e.leftOut batch := by
      intro hout
      obtain ⟨hin, hnot⟩ := mem_leftOut.1 hout
      rw [hp hin] at hnot
      exact Bool.noConfusion hnot
    exact .inl (mem_graph_update.2 (.inr ⟨hedge, hpin, not_mem_leftOut hr, hc, hkept⟩))

/-- An edit that tells the cells nothing. -/
theorem silent (h : e.Tracks p c) {operation : Edit} (hsilent : operation.Silent) :
    (e.apply (.edit operation)).Tracks p c :=
  h.step (fun hedge => (Engine.apply_of_silent hsilent e).1 ▸ hedge)
    (Engine.wasFresh_of_silent hsilent e c)

/-- An edit that is no severance. -/
theorem edit (h : e.Tracks p c) (operation : Edit)
    (hcut : ∀ kind, (Step.edit operation : Step V).severs e p c kind = false) :
    (e.apply (.edit operation)).Tracks p c := by
  cases operation with
  | update batch =>
    refine h.update (fun hin => ?_) fun hwithdrawn => ?_
    · have hleave := hcut .leavingOut
      simp only [Step.severs, hin, Bool.true_and, Bool.not_eq_false'] at hleave
      exact hleave
    · have hwithdraw := hcut .withdrawal
      simp [Step.severs, hwithdrawn] at hwithdraw
  | clear =>
    refine .inr fun cell hcell => ?_
    simp [Engine.apply, Engine.step, Engine.edit, Engine.clear, Engine.withFlags] at hcell
  | restore document => exact .inr fun cell hcell => (Engine.stale_restore hcell).1
  | _ => exact h.silent (by trivial)

end Engine.Tracks

/-! ## 3. Reads leave edges -/

/-- What was read by a run in progress is connected to its cell, and what a stored output
was made from is tracked. -/
structure Provenance.Linked (p c : CellId) (runs : List CellId) (w : Provenance V) : Prop where
  reading : w.reading = true → c ∈ runs → (p, c) ∈ w.engine.graph
  stored : w.stored = true → w.engine.Tracks p c

theorem Provenance.Linked.after {p c : CellId} {runs : List CellId} {w : Provenance V}
    (h : w.Linked p c runs) {event : Event V} (hfits : event.Fits runs) :
    (w.after Severance.all p c event).Linked p c (event.runsAfter runs) := by
  cases event with
  | answered context id reply => exact h
  | bound name value => exact h
  | step st =>
    have hcut : ∀ kept : Bool,
        (kept && !Severance.all.any fun kind => st.severs w.engine p c kind) = true →
        kept = true ∧ ∀ kind, st.severs w.engine p c kind = false := by
      intro kept hkept
      simp only [Bool.and_eq_true, Bool.not_eq_true', List.any_eq_false, Bool.not_eq_true] at hkept
      refine ⟨hkept.1, fun kind => hkept.2 kind ?_⟩
      cases kind <;> simp [Severance.all]
    cases st with
    | edit operation =>
      -- Nothing is edited during a run.
      have hidle : runs = [] := hfits
      refine ⟨fun _ hc => ?_, fun hstored => ?_⟩
      · rw [hidle] at hc
        cases hc
      · obtain ⟨hstored, hsevers⟩ := hcut _ hstored
        exact (h.stored hstored).edit operation hsevers
    | beginRun id =>
      refine ⟨fun hreading hc => ?_, fun hstored => ?_⟩
      · obtain ⟨hreading, -⟩ := hcut _ hreading
        simp only [Bool.and_eq_true, decide_eq_true_eq] at hreading
        exact h.reading hreading.1 ((List.mem_cons.1 hc).resolve_left (Ne.symm hreading.2))
      · exact (h.stored (hcut _ hstored).1).step (fun hedge => hedge)
          (w.engine.wasFresh_beginRun id c)
    | connect parent child =>
      have hgrow : (p, c) ∈ w.engine.graph →
          (p, c) ∈ (w.engine.connect parent child).graph := fun hedge =>
        Engine.mem_graph_connect.2 (.inr hedge)
      refine ⟨fun hreading hc => ?_, fun hstored => ?_⟩
      · obtain ⟨hreading, -⟩ := hcut _ hreading
        simp only [Bool.or_eq_true, Bool.and_eq_true, decide_eq_true_eq] at hreading
        rcases hreading with hreading | ⟨rfl, rfl⟩
        · exact hgrow (h.reading hreading hc)
        · exact Engine.mem_graph_connect.2 (.inl ⟨rfl, rfl⟩)
      · exact (h.stored (hcut _ hstored).1).step hgrow (Engine.wasFresh_of_cells rfl c)
    | write context id output =>
      have hgraph := w.engine.graph_apply_write context id output
      refine ⟨fun hreading hc => ?_, fun hstored => ?_⟩
      · exact hgraph ▸ h.reading (hcut _ hreading).1 hc
      · obtain ⟨hstored, -⟩ := hcut _ hstored
        by_cases hid : id = c
        · have hc : c ∈ runs := List.mem_of_head? (hid ▸ hfits.1)
          simp only [hid, if_true] at hstored
          exact .inl (hgraph ▸ h.reading hstored hc)
        · simp only [hid, if_false] at hstored
          exact (h.stored hstored).step (fun hedge => hgraph ▸ hedge)
            (w.engine.wasFresh_apply_write (Ne.symm hid) output)
    | failRun id =>
      have hkept : (∀ kind, (Step.failRun id : Step V).severs w.engine p c kind = false) →
          (p, c) ∈ w.engine.graph → (p, c) ∈ (w.engine.failRun id).graph := by
        intro hsevers hedge
        refine Engine.mem_graph_failRun.2 ⟨hedge, ?_⟩
        rintro ⟨rfl, -, hundeclared⟩
        have hfailure := hsevers .failure
        simp only [Step.severs, decide_true, Bool.true_and, Bool.not_eq_false',
          Option.any_eq_true] at hfailure
        obtain ⟨cell, hcell, hdeclares⟩ := hfailure
        rw [hundeclared cell hcell] at hdeclares
        exact Bool.noConfusion hdeclares
      refine ⟨fun hreading hc => ?_, fun hstored => ?_⟩
      · obtain ⟨hreading, hsevers⟩ := hcut _ hreading
        exact hkept hsevers (h.reading hreading hc)
      · obtain ⟨hstored, hsevers⟩ := hcut _ hstored
        simp only [Bool.and_eq_true] at hstored
        exact (h.stored hstored.1).step (hkept hsevers) (w.engine.wasFresh_failRun id c)
    | resume slot =>
      refine ⟨fun hreading hc => ?_, fun hstored => ?_⟩
      · exact h.reading (hcut _ hreading).1 (List.mem_of_mem_tail hc)
      · exact (h.stored (hcut _ hstored).1).step (fun hedge => hedge)
          (Engine.wasFresh_of_cells rfl c)

/-- By induction on the events. -/
theorem linked_provenance {p c : CellId} {start : Engine V} {events : List (Event V)}
    (h : Orderly [] events) :
    (provenance Severance.all p c start events).Linked p c (openRuns [] events) := by
  have hfold : ∀ runs (w : Provenance V), Orderly runs events → w.Linked p c runs →
      (events.foldl (Provenance.after Severance.all p c) w).Linked p c (openRuns runs events) := by
    clear h
    induction events with
    | nil => exact fun _ _ _ hw => hw
    | cons event events ih =>
      exact fun runs w horderly hw => ih _ _ horderly.2 (hw.after horderly.1)
  exact hfold [] _ h ⟨nofun, nofun⟩

/-! ## 4. Changes of code -/

/-- **A change of code reaches every reader** that no severance has cut off since it read. -/
theorem Runner.OnlyReads.change_reaches {runner : Runner V σ} (hr : runner.OnlyReads)
    {start e : Engine V} {events : List (Event V)}
    (h : runner.History (fun _ command => command.FromOutside) start events e) {p c : CellId}
    (hread : (provenance Severance.all p c start events).stored = true) {batch : Batch}
    (hchanged : p ∈ e.changedBy batch) {cell : Cell V}
    (hcell : (e.update batch).cells[c]? = some cell) : cell.stale = true := by
  obtain ⟨horderly, -⟩ := h.orderly hr fun _ _ hcommand => hcommand
  have htracks := (linked_provenance horderly).stored hread
  rw [engine_provenance, ← h.eq_replay] at htracks
  by_contra hnot
  obtain ⟨old, r, hold, hr, -, hfresh, -, -, -, hapart⟩ :=
    Engine.fresh_of_update hcell (by simpa using hnot)
  rcases htracks with hedge | hstale
  · obtain ⟨revision, hrevision, -⟩ := Engine.mem_changedBy.1 hchanged
    exact hapart p hchanged (.single (Engine.mem_graph_kept.2
      ⟨hedge, Engine.not_mem_leftOut hrevision, Engine.not_mem_leftOut hr⟩))
  · rw [hstale old hold] at hfresh
    exact Bool.noConfusion hfresh

/-! ## 5. The severances -/

/-- Cell 1 reads cell 0 and disregards the reply, and cell 0 fails if its code says so. -/
def heedless : Runner Unit Unit := fun context request state =>
  if request.cell = ⟨1⟩ then .ask state (.read context ⟨0⟩) fun s _ => .done s (.ok (.plain ()))
  else if request.code = "fail" then .done state (.error ⟨"Failure", "as told"⟩)
  else .done state (.ok (.plain ()))

theorem heedless_onlyReads : heedless.OnlyReads := by
  intro request state
  rw [heedless]
  split
  · exact .read fun s _ => .done s _
  · split
    · exact .done state _
    · exact .done state _

/-- Cell 0 with the given code, and cell 1 as it is given. -/
def twoRevisions (code : String) (reader : Revision) : Batch :=
  (∅ : Batch).insert ⟨0⟩ (.ofCode code) |>.insert ⟨1⟩ reader

/-- The batch that changes the code of cell 0. -/
def newCode : Batch := twoRevisions "new" (.ofCode "reader")

/-- Cell 1 has read cell 0 and is run no more. -/
def readOnce : List (Command Unit) :=
  [.edit (.update (twoRevisions "old" (.ofCode "reader"))), .execute ⟨1⟩ {}]

theorem readOnce_fromOutside : ∀ command ∈ readOnce, command.FromOutside := by
  intro command hcommand
  simp only [readOnce, List.mem_cons, List.not_mem_nil, or_false] at hcommand
  rcases hcommand with rfl | rfl <;> trivial

/-- Left alone, the reader is stale after the change. -/
theorem readOnce_change_reaches :
    ∃ events e cell, heedless.session 2 readOnce .new () = some (events, e) ∧
    (e.update newCode).cells[(⟨1⟩ : CellId)]? = some cell ∧ cell.stale = true := by
  obtain ⟨⟨events, e⟩, hsession, hevents⟩ :
      ∃ found, heedless.session 2 readOnce .new () = some found ∧
      (decide ((provenance Severance.all ⟨0⟩ ⟨1⟩ .new found.1).stored = true ∧
        ⟨0⟩ ∈ found.2.changedBy newCode ∧ (found.2.update newCode).contains ⟨1⟩ = true)) = true :=
    (Option.any_eq_true _ _).1 (by decide +kernel)
  obtain ⟨hread, hchanged, hin⟩ := of_decide_eq_true hevents
  have hstart : heedless.History (fun _ command => command.FromOutside) .new [] .new := .start
  have hhistory := hstart.append_session
    (fun command hcommand _ => readOnce_fromOutside command hcommand) hsession
  rw [Engine.contains, ExtTreeMap.contains_eq_isSome_getElem?] at hin
  obtain ⟨cell, hcell⟩ := Option.isSome_iff_exists.1 hin
  exact ⟨events, e, cell, hsession, hcell,
    heedless_onlyReads.change_reaches hhistory hread hchanged hcell⟩

/-- Cell 1 has read cell 0 and is then cut off, or cell 0 fails right away. -/
def Severance.session : Severance → List (Command Unit)
  | .failure => [.edit (.update (twoRevisions "fail" (.ofCode "reader"))), .execute ⟨1⟩ {}]
  | .leavingOut => readOnce ++ [.edit (.update ((∅ : Batch).insert ⟨1⟩ (.ofCode "reader"))),
      .edit (.update (twoRevisions "old" (.ofCode "reader")))]
  | .withdrawal =>
    [.edit (.update (twoRevisions "old" ((Revision.ofCode "reader").withInput ⟨0⟩ []))),
      .execute ⟨1⟩ {}, .edit (.update (twoRevisions "old" (.ofCode "reader")))]

/-- The output of cell 1 was made from cell 0, and the given severances have not happened. -/
def MadeFrom (cuts : List Severance) (events : List (Event Unit)) : Prop :=
  (provenance cuts ⟨0⟩ ⟨1⟩ .new events).stored = true

/-- The code of cell 0 changes, cell 1 is there before and after, and is not stale. -/
def GoesUnnoticed (e : Engine Unit) : Prop :=
  ⟨0⟩ ∈ e.changedBy newCode ∧ e.contains ⟨1⟩ = true ∧
    ((e.update newCode).cells[(⟨1⟩ : CellId)]?).map Cell.stale = some false

instance (cuts : List Severance) (events : List (Event Unit)) : Decidable (MadeFrom cuts events) :=
  inferInstanceAs (Decidable (_ = true))

instance (e : Engine Unit) : Decidable (GoesUnnoticed e) :=
  inferInstanceAs (Decidable (_ ∧ _ ∧ _))

/-- After a history with no other severance a change of cell 0 goes unnoticed by cell 1, which has
read it. -/
def Severance.Hides (kind : Severance) : Prop :=
  ∃ events e, heedless.History (fun _ command => command.FromOutside) .new events e ∧
    MadeFrom [] events ∧ MadeFrom (Severance.all.erase kind) events ∧ GoesUnnoticed e

theorem Severance.hides_of_session {kind : Severance}
    (houtside : ∀ command ∈ kind.session, command.FromOutside)
    (h : ((heedless.session 2 kind.session .new ()).any fun (events, e) =>
      decide (MadeFrom [] events ∧ MadeFrom (Severance.all.erase kind) events ∧
        GoesUnnoticed e)) = true) :
    kind.Hides := by
  obtain ⟨⟨events, e⟩, hsession, hevents⟩ := Option.any_eq_true _ _ |>.1 h
  have hstart : heedless.History (fun _ command => command.FromOutside) .new [] .new := .start
  have hhistory := hstart.append_session
    (fun command hcommand _ => houtside command hcommand) hsession
  exact ⟨events, e, hhistory, of_decide_eq_true hevents⟩

/-- **Each severance hides a change** from a cell that has read what is changed. -/
theorem severances_hide :
    Severance.Hides .failure ∧ Severance.Hides .leavingOut ∧ Severance.Hides .withdrawal := by
  refine ⟨Severance.hides_of_session ?_ (by decide +kernel),
    Severance.hides_of_session ?_ (by decide +kernel),
    Severance.hides_of_session ?_ (by decide +kernel)⟩
  all_goals
    intro command hcommand
    simp only [Severance.session, readOnce, List.cons_append, List.nil_append, List.mem_cons,
      List.not_mem_nil, or_false] at hcommand
  · rcases hcommand with rfl | rfl <;> trivial
  · rcases hcommand with rfl | rfl | rfl | rfl <;> trivial
  · rcases hcommand with rfl | rfl | rfl <;> trivial

end Notebook
