import Notebook.Proofs.Engine.Batch
import Notebook.Proofs.Run.History
import Notebook.Proofs.Run.Sound

/-!
# What is cached is what would be computed

With a pure runner, and as long as no batch takes anything away, caching cannot be noticed:

> **every output that is answered or stored as good is the evaluation of its cell** under the
> current codes.

A batch keeps this because it makes stale whatever is downstream of a cell with a new code. What
is left has an evaluation that stays clear of these cells, and its reads are still edges.
-/

set_option autoImplicit false

namespace Notebook

open Std

variable {V σ : Type}

/-! ## 1. Batches that take nothing away -/

/-- Every cell of the batch has a persistent code and none always answers its stored output. No
cell is left out, and no declaration is withdrawn from a cell whose code stays the same. -/
structure Engine.Careful (e : Engine V) (batch : Batch) : Prop where
  coded : ∀ (id : CellId) (r : Revision), batch[id]? = some r → r.persistentCode.isSome = true
  unforced : ∀ (id : CellId) (r : Revision), batch[id]? = some r → r.forceCached = false
  complete : ∀ id, e.contains id = true → batch.contains id = true
  declared : ∀ (id : CellId) (cell : Cell V) (r : Revision) (p : CellId), e.cells[id]? = some cell →
    batch[id]? = some r → r.persistentCode = cell.persistentCode → cell.declares p = true →
    r.inputs.contains p = true

namespace Engine.Careful

variable {e : Engine V} {batch : Batch}

theorem leftOut_eq_nil (h : e.Careful batch) : e.leftOut batch = [] := by
  rw [List.eq_nil_iff_forall_not_mem]
  intro id hid
  obtain ⟨hin, hnot⟩ := mem_leftOut.1 hid
  rw [h.complete id hin] at hnot
  exact Bool.noConfusion hnot

theorem kept_eq (h : e.Careful batch) : e.kept batch = e := by
  rw [kept, h.leftOut_eq_nil, List.foldl_nil]

/-- An edge to a cell with the same code as before is still there. -/
theorem mem_graph_update (h : e.Careful batch) {p c : CellId} (hedge : (p, c) ∈ e.graph)
    (hc : c ∉ e.changedBy batch) : (p, c) ∈ (e.update batch).graph := by
  rw [Engine.mem_graph_update, h.leftOut_eq_nil]
  refine .inr ⟨hedge, List.not_mem_nil, List.not_mem_nil, hc, fun hwithdrawn => ?_⟩
  obtain ⟨r, hr, hsame, hdeclares, hnot⟩ := mem_withdrawnBy.1 hwithdrawn
  cases hcell : e.cells[c]? with
  | none =>
    rw [cellOrNew, hcell] at hdeclares
    simp [Cell.declares, Cell.new] at hdeclares
  | some cell =>
    rw [cellOrNew, hcell, Option.getD_some] at hsame hdeclares
    rw [Cell.changedBy, h.coded c r hr, Bool.true_and, bne_eq_false_iff_eq] at hsame
    rw [h.declared c cell r p hcell hr hsame hdeclares] at hnot
    exact Bool.noConfusion hnot

/-- So is its code. -/
theorem codes_update (h : e.Careful batch) {c : CellId} (hc : c ∉ e.changedBy batch) :
    (e.update batch).codes c = e.codes c := by
  rw [codes, codes, getElem?_update]
  cases hr : batch[c]? with
  | none =>
    cases hcell : e.cells[c]? with
    | none => rfl
    | some cell =>
      have hin := h.complete c (contains_of_cell hcell)
      rw [ExtTreeMap.contains_eq_isSome_getElem?, hr] at hin
      cases hin
  | some r =>
    have hsame : (e.cellOrNew c).changedBy r = false := by
      rw [Bool.eq_false_iff]
      exact fun hchanged => hc (mem_changedBy.2 ⟨r, hr, hchanged⟩)
    cases hcell : e.cells[c]? with
    | none =>
      rw [cellOrNew, hcell, Cell.changedBy, h.coded c r hr] at hsame
      simp only [Option.getD_none, Cell.new, Bool.true_and, bne_eq_false_iff_eq] at hsame
      have hcoded := h.coded c r hr
      rw [hsame] at hcoded
      cases hcoded
    | some cell =>
      rw [cellOrNew, hcell, Option.getD_some] at hsame ⊢
      have hcode := (Engine.revise_of_unchanged hsame).1
      rw [Option.map_some, Option.bind_some, Option.bind_some]
      split
      · exact hcode
      · exact hcode

end Engine.Careful

/-- **A batch that takes nothing away keeps the stored outputs sound.** -/
theorem Sound.update {script : String → Script V} {e : Engine V} (h : Sound script [] e)
    {batch : Batch} (hb : e.Careful batch) : Sound script [] (e.update batch) where
  told id r hr := by
    obtain ⟨cell, hcell, rfl⟩ := Option.map_eq_some_iff.1 hr
    rw [Engine.getElem?_update] at hcell
    obtain ⟨revision, hrevision, rfl⟩ := Option.map_eq_some_iff.1 hcell
    have hcode := Engine.persistentCode_revise (e.cellOrNew id) (hb.coded id revision hrevision)
    have hforced := (Engine.forceCached_revise (e.cellOrNew id) revision).trans
      (hb.unforced id revision hrevision)
    obtain ⟨code, hsome⟩ := Option.isSome_iff_exists.1 (hb.coded id revision hrevision)
    split
    · exact ⟨⟨code, hcode.trans hsome⟩, hforced⟩
    · exact ⟨⟨code, hcode.trans hsome⟩, hforced⟩
  idle _ _ _ _ := List.not_mem_nil
  stored id cell hcell hfresh := by
    obtain ⟨old, r, hold, hr, -, hstale, -, houtput, hsame, hapart⟩ :=
      Engine.fresh_of_update hcell hfresh
    obtain ⟨output, hstored, hsupports⟩ := h.stored id old hold hstale
    refine ⟨output, houtput.trans hstored, ?_⟩
    rw [hb.kept_eq] at hapart
    -- The evaluation stays clear of the cells with a new code and of what they feed.
    refine Evaluates.transfer (fun c => c ∉ e.changedBy batch ∧
      ∀ y ∈ e.changedBy batch, ¬ e.graph.Feeds y c) ?_ ?_ ?_ hsupports ⟨hsame, hapart⟩
    · rintro p c ⟨-, hc⟩ ⟨hedge, -⟩
      exact ⟨fun hp => hc p hp (.single hedge), fun y hy hfeeds => hc y hy (hfeeds.tail hedge)⟩
    · rintro p c ⟨hc, -⟩ ⟨hedge, -⟩
      exact ⟨hb.mem_graph_update hedge hc, List.not_mem_nil⟩
    · rintro c ⟨hc, -⟩
      exact hb.codes_update hc

/-! ## 2. Calls -/

section

variable {runner : Runner V σ} {script : String → Script V} {e : Engine V} {limit : Nat} {state : σ}

theorem Sound.executeWith (hr : runner.Pure script) {id : CellId} {overrides : FlagOverrides}
    {t : Turn V σ (Except Fault (Output V))} (h : Sound script [] e)
    (ht : Notebook.executeWith (runFresh runner limit) id overrides e state = some t) :
    Sound script [] t.engine :=
  (delivers_executeWith (delivers_runFresh hr limit) h (by simp) ht).sound

theorem delivers_runRequestedWith (hr : runner.Pure script) (h : Sound script [] e)
    {request : Request} {t : Turn V σ (Except Fault (Output V))}
    (ht : runRequestedWith (runFresh runner limit) request e state = some t) :
    Sound script [] t.engine ∧
      ∀ output, t.reply = .ok output → t.engine.Supports script [] request.cell output := by
  obtain ⟨fault, rfl⟩ | ⟨cell, run, hcell, hrun, rfl⟩ := runRequestedWith_cases ht
  · exact ⟨h, fun output houtput => by cases houtput⟩
  · have hdelivers := delivers_runFresh hr limit [] _ _ _ _ _ (h.insert_markStale hcell) (by simp)
      (fun cell' hcell' => by
        rw [Engine.getElem?_insert_cell, if_pos rfl] at hcell'
        cases hcell'
        rfl) hrun
    exact ⟨hdelivers.sound, fun output houtput => (hdelivers.holds output houtput).2⟩

/-- A request whose batch takes nothing away. -/
theorem delivers_requestWith (hr : runner.Pure script) (h : Sound script [] e) {request : Request}
    (hb : e.Careful request.batch) {t : Turn V σ (Report V)}
    (ht : requestWith (runFresh runner limit) request e state = some t) :
    Sound script [] t.engine ∧
      ∀ output, t.reply.result = .ok output →
        Evaluates script t.engine.codes (fun _ _ => True) request.cell output := by
  rw [requestWith_apply] at ht
  obtain ⟨first, hfirst, ht⟩ := Option.bind_eq_some_iff.1 ht
  obtain ⟨second, hsecond, rfl⟩ := Option.map_eq_some_iff.1 ht
  have hprepared : Sound script [] (e.prepared request.batch) := by
    have hlinked : Sound script []
        ((e.update request.batch).addLinks (e.update request.batch).declarations) :=
      (h.update hb).of_wasFresh (fun _ => rfl) rfl (Engine.wasFresh_of_cells rfl)
    exact hlinked.resetDidRun
  obtain ⟨hmiddle, hresult⟩ := delivers_runRequestedWith hr hprepared hfirst
  have hend : Sound script [] second.engine :=
    followUpWith_keeps (fun _ _ _ _ h ht => h.executeWith hr ht)
    (fun id _ h => h.markDescendantsStale id) hmiddle hsecond
  refine ⟨hend.of_wasFresh (fun _ => rfl) rfl (Engine.wasFresh_of_cells rfl), ?_⟩
  intro output houtput
  have htold := (frame_of_followUpWith (framed_runFresh hr.onlyReads limit) hsecond).told
  have hcodes : second.engine.dropDeleted.codes = first.engine.codes :=
    Engine.codes_eq_of_told htold
  rw [hcodes]
  exact Evaluates.mono (fun _ _ _ => trivial) (hresult output houtput)

end

/-- The calls that keep the stored outputs sound. -/
def Command.Careful (e : Engine V) : Command V → Prop
  | .edit (.update batch) => e.Careful batch
  | .edit (.invalidate _) => True
  | .edit (.markDescendantsStale _) => True
  | .edit .resetDidRun => True
  | .execute _ _ => True
  | .cascade _ => True
  | .request asked => e.Careful asked.batch
  | _ => False

theorem Sound.carryOut {runner : Runner V σ} {script : String → Script V} (hr : runner.Pure script)
    {e : Engine V} (h : Sound script [] e) {command : Command V} (hcommand : command.Careful e)
    {limit : Nat} {state : σ} {t : Turn V σ command.Reply}
    (ht : Notebook.carryOut (runFresh runner limit) command e state = some t) :
    Sound script [] t.engine := by
  cases command with
  | edit operation =>
    cases ht
    cases operation with
    | update batch => exact h.update hcommand
    | invalidate id =>
      show Sound script [] (e.apply (.edit (.invalidate id)))
      obtain hinvalid | ⟨cell, hcell, hinvalid⟩ := e.apply_invalidate_cases id
      all_goals rw [hinvalid]
      · exact h
      · exact h.insert_markStale hcell
    | markDescendantsStale id => exact h.markDescendantsStale id
    | resetDidRun => exact h.resetDidRun
    | _ => exact hcommand.elim
  | execute id overrides => exact h.executeWith hr ht
  | cascade id => exact cascadeWith_keeps (fun _ _ _ _ h ht => h.executeWith hr ht) h ht
  | request request => exact (delivers_requestWith hr h hcommand ht).1
  | _ => exact hcommand.elim

/-! ## 3. Histories -/

/-- A new engine has no cells. -/
theorem Sound.withFlags (script : String → Script V) (flags : RunFlags) :
    Sound script [] (Engine.withFlags flags : Engine V) where
  told id r hr := by simp [Engine.told, Engine.withFlags] at hr
  idle _ _ _ _ := List.not_mem_nil
  stored id cell hcell := by simp [Engine.withFlags] at hcell

/-- **Every output that is answered or stored as good is the evaluation of its cell**, after any
history of careful calls with a pure runner. -/
theorem Runner.Pure.evaluates {runner : Runner V σ} {script : String → Script V}
    (hr : runner.Pure script) {flags : RunFlags} {events : List (Event V)} {e : Engine V}
    (h : runner.History (fun e command => command.Careful e) (.withFlags flags) events e) :
    (∀ id cell, e.cells[id]? = some cell → cell.stale = false →
      ∃ output, cell.output = some output ∧ Evaluates script e.codes (fun _ _ => True) id output) ∧
    (∀ limit id overrides state t output, runner.execute limit id overrides e state = some t →
      t.reply = .ok output → Evaluates script t.engine.codes (fun _ _ => True) id output) ∧
    (∀ limit (request : Request) state t output, e.Careful request.batch →
      runner.request limit request e state = some t → t.reply.result = .ok output →
      Evaluates script t.engine.codes (fun _ _ => True) request.cell output) := by
  have hsound : Sound script [] e := h.induct
      (.withFlags script flags) fun _ _ _ _ _ h hallowed ht =>
    h.carryOut hr hallowed ht
  refine ⟨fun id cell hcell hfresh => ?_, fun limit id overrides state t output ht hreply => ?_,
    fun limit request state t output hb ht hresult => ?_⟩
  · obtain ⟨output, hstored, hsupports⟩ := hsound.stored id cell hcell hfresh
    exact ⟨output, hstored, Evaluates.mono (fun _ _ _ => trivial) hsupports⟩
  · have hdelivers := delivers_executeWith (delivers_runFresh hr limit) hsound (by simp) ht
    exact Evaluates.mono (fun _ _ _ => trivial) (hdelivers.holds output hreply).2
  · exact (delivers_requestWith hr hsound hb ht).2 output hresult

/-- The empty code copies what cell 0 comes to, and any other code comes to its length. -/
def copierScript (code : String) : Script Nat :=
  if code = "" then .read ⟨0⟩ fun value => .finish (.ok value)
    else .finish (.ok (.plain code.length))

/-- A runner that follows the script. -/
def copier : Runner Nat Unit := fun context request state =>
  if request.code = "" then
    .ask state (.read context ⟨0⟩) fun s reply => .done s (reply.mapError .ofFault)
  else .done state (.ok (.plain request.code.length))

theorem copier_pure : copier.Pure copierScript := by
  intro request state
  rw [copier, copierScript]
  split
  · exact .read (fun s value => .finish s (.ok value)) fun s fault => ⟨s, .ofFault fault, rfl⟩
  · exact .finish state _

/-- A cell, and a copy of it. -/
def copyBatch : Batch :=
  (∅ : Batch).insert ⟨0⟩ (.ofCode "one") |>.insert ⟨1⟩ (.ofCode "")

/-- The notebook after the copy was made. -/
def copied : Engine Nat :=
  ((copier.execute 2 ⟨1⟩ {} (Engine.new.update copyBatch) ()).map Turn.engine).getD .new

theorem careful_copyBatch : (Engine.new : Engine Nat).Careful copyBatch := by
  have hentry : ∀ (id : CellId) r, copyBatch[id]? = some r → ∃ code, r = .ofCode code := by
    intro id r hr
    rw [copyBatch, ExtTreeMap.getElem?_insert, ExtTreeMap.getElem?_insert] at hr
    split at hr
    · exact ⟨"", (Option.some.inj hr).symm⟩
    · split at hr
      · exact ⟨"one", (Option.some.inj hr).symm⟩
      · simp at hr
  refine ⟨fun id r hr => ?_, fun id r hr => ?_, fun id hin => ?_, fun id cell r p hcell => ?_⟩
  · obtain ⟨code, rfl⟩ := hentry id r hr
    rfl
  · obtain ⟨code, rfl⟩ := hentry id r hr
    rfl
  · simp [Engine.contains, Engine.new] at hin
  · simp [Engine.new] at hcell

/-- The copy stores the length of the code it copies, which is its evaluation. -/
theorem copied_evaluates : ∃ cell, copied.cells[(⟨1⟩ : CellId)]? = some cell ∧ cell.stale = false ∧
    cell.output = some (.plain 3) ∧
      Evaluates copierScript copied.codes (fun _ _ => True) ⟨1⟩ (.plain 3) := by
  obtain ⟨t, ht⟩ : ∃ t, copier.execute 2 ⟨1⟩ {} (Engine.new.update copyBatch) () = some t :=
    Option.isSome_iff_exists.1 (by decide +kernel)
  have hcopied : t.engine = copied := by rw [copied, ht, Option.map_some, Option.getD_some]
  have hupdated : copier.History (fun e command => command.Careful e) (.withFlags {}) _
      (Engine.new.update copyBatch) :=
    .call .start careful_copyBatch
      (rfl : carryOut (runFresh copier 0) (.edit (.update copyBatch)) .new () = some _)
  have hcarried : carryOut (runFresh copier 2) (.execute ⟨1⟩ {}) (Engine.new.update copyBatch) () =
    some t := ht
  have hexecuted := Runner.History.call hupdated
    (show Command.Careful _ (.execute ⟨1⟩ {}) from trivial) hcarried
  rw [hcopied] at hexecuted
  obtain ⟨cell, hcell, hfresh, hvalue⟩ : ∃ cell, copied.cells[(⟨1⟩ : CellId)]? = some cell ∧
      cell.stale = false ∧ cell.output = some (.plain 3) := by
    have hstored : (copied.cells[(⟨1⟩ : CellId)]?).map (fun cell => (cell.stale, cell.output)) =
        some (false, some (.plain 3)) := by decide +kernel
    obtain ⟨cell, hcell, hpair⟩ := Option.map_eq_some_iff.1 hstored
    exact ⟨cell, hcell, congrArg Prod.fst hpair, congrArg Prod.snd hpair⟩
  obtain ⟨output, hstored, hevaluates⟩ := (copier_pure.evaluates hexecuted).1 ⟨1⟩ cell hcell hfresh
  rw [hvalue] at hstored
  cases hstored
  exact ⟨cell, hcell, hfresh, hvalue, hevaluates⟩

end Notebook
