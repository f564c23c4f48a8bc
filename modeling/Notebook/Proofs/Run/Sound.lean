import Notebook.Proofs.Graph.Cycle
import Notebook.Proofs.Run.Script

/-!
# Stored outputs are evaluations

With a pure runner, a cell that is not stale stores its evaluation, and the evaluation keeps to
the edges of the graph. So whatever the evaluation depends on is upstream of the cell, and a
change there makes it stale.

Failures are what makes this hard. The failure of a run takes edges away that lead out of its
cell, and another cell may store an evaluation that uses them. But this does not happen. A cell
whose evaluation keeps to the edges of the graph is *supported*, and

> **the run of a supported cell succeeds**, with the evaluation as its output, and leaves the
> graph alone.

So a cell whose run fails was not supported when the run began. No stored evaluation used it then,
since it would have been supported with the cell that used it. And none uses it later, since its
run is in progress and a read of it would close a cycle. The cells whose runs are in progress and
that were not supported when they began are *busy*; the stored evaluations avoid them.
-/

set_option autoImplicit false

namespace Notebook

open Std

variable {V σ : Type}

namespace Engine

/-- The current persistent code of each cell. -/
def codes (e : Engine V) (id : CellId) : Option String :=
  (e.cells[id]?).bind Cell.persistentCode

/-- The edges whose parent is not busy. -/
def Reads (e : Engine V) (busy : List CellId) (p c : CellId) : Prop :=
  (p, c) ∈ e.graph ∧ p ∉ busy

/-- The evaluation of the cell keeps to the edges of the graph and avoids busy cells. -/
def Supports (e : Engine V) (script : String → Script V) (busy : List CellId) (id : CellId)
    (output : Output V) : Prop :=
  Evaluates script e.codes (e.Reads busy) id output

theorem codes_eq_of_told {e e' : Engine V} (h : ∀ id, e'.told id = e.told id) :
    e'.codes = e.codes := by
  have hcodes : ∀ (e : Engine V) id, e.codes id = (e.told id).bind Revision.persistentCode := by
    intro e id
    rw [codes, told]
    cases e.cells[id]? <;> rfl
  funext id
  rw [hcodes, hcodes, h]

theorem codes_of_cell {e : Engine V} {id : CellId} {cell : Cell V} (h : e.cells[id]? = some cell) :
    e.codes id = cell.persistentCode := by
  rw [codes, h, Option.bind_some]

theorem contains_of_codes {e : Engine V} {id : CellId} {code : String}
    (h : e.codes id = some code) : e.contains id = true := by
  obtain ⟨cell, hcell, -⟩ := Option.bind_eq_some_iff.1 h
  exact contains_of_cell hcell

theorem Supports.mono {e e' : Engine V} {script : String → Script V} {busy busy' : List CellId}
    {id : CellId} {output : Output V} (h : e.Supports script busy id output)
    (hcodes : e'.codes = e.codes) (hbusy : ∀ p, p ∈ busy' → p ∈ busy)
    (hedges : ∀ p c, p ∉ busy → (p, c) ∈ e.graph → (p, c) ∈ e'.graph) :
    e'.Supports script busy' id output := by
  rw [Supports, hcodes]
  exact Evaluates.mono (fun p c hread =>
    ⟨hedges p c hread.2 hread.1, fun hp => hread.2 (hbusy p hp)⟩) h

end Engine

/-- Every cell has a persistent code, none always answers its stored output, and what is not stale
is not busy and stores its evaluation. -/
structure Sound (script : String → Script V) (busy : List CellId) (e : Engine V) : Prop where
  told : ∀ id r, e.told id = some r → (∃ code, r.persistentCode = some code) ∧ r.forceCached = false
  idle : ∀ id cell, e.cells[id]? = some cell → cell.stale = false → id ∉ busy
  stored : ∀ id cell, e.cells[id]? = some cell → cell.stale = false →
    ∃ output, cell.output = some output ∧ e.Supports script busy id output

namespace Sound

variable {script : String → Script V} {busy busy' : List CellId} {e e' : Engine V}

theorem exists_code (h : Sound script busy e) {id : CellId} {cell : Cell V}
    (hcell : e.cells[id]? = some cell) : ∃ code, cell.persistentCode = some code :=
  (h.told id cell.told (Engine.told_eq_some_of_cell hcell)).1

theorem usesCache_eq (h : Sound script busy e) {id : CellId} {cell : Cell V}
    (hcell : e.cells[id]? = some cell) : cell.usesCache = !cell.stale :=
  Cell.usesCache_eq_not_stale (h.told id cell.told (Engine.told_eq_some_of_cell hcell)).2

/-- **One step.** What is told stays the same, no edge out of a cell that is not busy is
lost, and a cell is not stale only if it was not before, with the same output, or if it
stores its evaluation now. -/
theorem step (h : Sound script busy e) (htold : ∀ id, e'.told id = e.told id)
    (hbusy : ∀ p, p ∈ busy' → p ∈ busy)
    (hedges : ∀ p c, p ∉ busy → (p, c) ∈ e.graph → (p, c) ∈ e'.graph)
    (hcells : ∀ (id : CellId) (cell' : Cell V), e'.cells[id]? = some cell' → cell'.stale = false →
      (∃ cell, e.cells[id]? = some cell ∧ cell.stale = false ∧ cell.output = cell'.output) ∨
    id ∉ busy' ∧ ∃ output, cell'.output = some output ∧ e.Supports script busy id output) :
    Sound script busy' e' where
  told id r hr := h.told id r (htold id ▸ hr)
  idle id cell' hcell' hfresh := by
    rcases hcells id cell' hcell' hfresh with ⟨cell, hcell, hstale, -⟩ | ⟨hnot, -⟩
    · exact fun hid => h.idle id cell hcell hstale (hbusy id hid)
    · exact hnot
  stored id cell' hcell' hfresh := by
    have hcodes := Engine.codes_eq_of_told htold
    rcases hcells id cell' hcell' hfresh with ⟨cell, hcell, hstale, houtput⟩ |
      ⟨-, output, houtput, hsupports⟩
    · obtain ⟨output, hstored, hsupports⟩ := h.stored id cell hcell hstale
      exact ⟨output, houtput ▸ hstored, hsupports.mono hcodes hbusy hedges⟩
    · exact ⟨output, houtput, hsupports.mono hcodes hbusy hedges⟩

/-- A step that stores no output and leaves the graph alone. -/
theorem of_wasFresh (h : Sound script busy e) (htold : ∀ id, e'.told id = e.told id)
    (hgraph : e'.graph = e.graph) (hcells : ∀ id, Engine.WasFresh e e' id) : Sound script busy e' :=
  h.step htold (fun _ hp => hp) (fun _ _ _ hedge => hgraph ▸ hedge) fun id cell' hcell' hfresh =>
    .inl (hcells id cell' hcell' hfresh)

theorem markDescendantsStale (h : Sound script busy e) (id : CellId) :
    Sound script busy (e.markDescendantsStale id) :=
  h.of_wasFresh (e.told_markDescendantsStale id) rfl (e.wasFresh_markDescendantsStale id)

theorem resetDidRun (h : Sound script busy e) : Sound script busy e.resetDidRun :=
  h.of_wasFresh e.told_resetDidRun rfl e.wasFresh_resetDidRun

theorem insert_markStale (h : Sound script busy e) {id : CellId} {cell : Cell V}
    (hcell : e.cells[id]? = some cell) :
    Sound script busy { e with cells := e.cells.insert id cell.markStale } :=
  h.of_wasFresh (Engine.told_insert_markStale hcell) rfl (e.wasFresh_insert_markStale id cell)

theorem beginRun (h : Sound script busy e) (id : CellId) : Sound script busy (e.beginRun id) :=
  h.of_wasFresh (e.told_beginRun id) rfl (e.wasFresh_beginRun id)

theorem connect (h : Sound script busy e) (parent child : CellId) :
    Sound script busy (e.connect parent child) :=
  h.step (fun _ => rfl) (fun _ hp => hp)
    (fun _ _ _ hedge => Engine.mem_graph_connect.2 (.inr hedge))
    fun _ cell' hcell' hfresh => .inl ⟨cell', hcell', hfresh, rfl⟩

/-- The evaluation of a cell is published. -/
theorem publish (h : Sound script busy e) (hbusy : ∀ p, p ∈ busy' → p ∈ busy) {id : CellId}
    {cell : Cell V} (hcell : e.cells[id]? = some cell) (hid : id ∉ busy') {output : Output V}
    (hsupports : e.Supports script busy id output) (slot : Option CellId) :
    Sound script busy' ((e.publish id cell output).resume slot) := by
  refine h.step (Engine.told_publish hcell output) hbusy (fun _ _ _ hedge => hedge)
    fun c cell' hcell' hfresh => ?_
  by_cases hc : c = id
  · subst hc
    exact .inr ⟨hid, output, Engine.output_of_publish hcell' hfresh, hsupports⟩
  · exact .inl (e.wasFresh_publish hc cell output cell' hcell' hfresh)

/-- The run of a busy cell fails. -/
theorem failRun {id : CellId} (h : Sound script (id :: busy) e) (slot : Option CellId) :
    Sound script busy ((e.failRun id).resume slot) := by
  refine h.step (e.told_failRun id) (fun _ hp => List.mem_cons_of_mem _ hp) (fun p c hp hedge => ?_)
    fun c cell' hcell' hfresh => .inl (e.wasFresh_failRun id c cell' hcell' hfresh)
  exact Engine.mem_graph_failRun.2 ⟨hedge, fun hfail => hp (hfail.1 ▸ List.mem_cons_self)⟩

/-- **A cell that is not supported may become busy** if it is stale: no stored evaluation
uses it. -/
theorem busy_cons (h : Sound script busy e) {id : CellId}
    (hstale : ∀ cell, e.cells[id]? = some cell → cell.stale = true)
    (hnone : ∀ output, ¬ e.Supports script busy id output) : Sound script (id :: busy) e where
  told := h.told
  idle c cell hcell hfresh := by
    rw [List.mem_cons, not_or]
    refine ⟨?_, h.idle c cell hcell hfresh⟩
    rintro rfl
    rw [hstale cell hcell] at hfresh
    exact Bool.noConfusion hfresh
  stored c cell hcell hfresh := by
    obtain ⟨output, houtput, hsupports⟩ := h.stored c cell hcell hfresh
    refine ⟨output, houtput, (Evaluates.avoid hnone hsupports).mono ?_⟩
    rintro p q ⟨⟨hedge, hp⟩, hne⟩
    exact ⟨hedge, fun hmem => (List.mem_cons.1 hmem).elim hne hp⟩

end Sound

/-! ## 2. Supported cells -/

/-- With the given edges and codes, a run that has got as far as `s` ends in `output`, adds and
takes away no edge, and keeps the stored outputs sound. -/
def Answers (runner : Runner V σ) (script : String → Script V) (busy : List CellId) (g : Graph)
    (codes : CellId → Option String) (cell : CellId) (s : Script V) (output : Output V) : Prop :=
  ∀ limit program e state t, e.graph = g → e.codes = codes → Sound script busy e →
    program.Follows ⟨cell⟩ s → perform (runFresh runner limit) program e state = some t →
    t.reply = .ok output ∧ t.engine.graph = g ∧ Sound script busy t.engine

section

variable {runner : Runner V σ} {script : String → Script V} {busy : List CellId}

/-- A run from its beginning, published at its end. -/
theorem Answers.runFresh (hr : runner.Pure script) {e : Engine V} {id : CellId} {code : String}
    {output : Output V} (h : Answers runner script busy e.graph e.codes id (script code) output)
    (hsound : Sound script busy e) (hcycle : e.graph.hasCycle = false) (hid : id ∉ busy)
    (hcode : e.codes id = some code) (hsupports : e.Supports script busy id output) {limit : Nat}
    {overrides : FlagOverrides} {state : σ} {t : Turn V σ (Except Fault (Output V))}
    (ht : Notebook.runFresh runner limit id overrides e state = some t) :
    t.reply = .ok output ∧ t.engine.graph = e.graph ∧ Sound script busy t.engine := by
  obtain ⟨htrue, -⟩ | ⟨-, hcell, -⟩ | ⟨deeper, cell, run, -, -, hcell, hrun, rfl⟩ :=
    runFresh_cases ht
  · rw [hcycle] at htrue
    exact Bool.noConfusion htrue
  · rw [Engine.codes, hcell] at hcode
    cases hcode
  · have hframe := frame_of_perform (framed_runFresh hr.onlyReads deeper)
      (hr.onlyReads.programOf id overrides e state cell) hrun
    obtain ⟨hslot, cell', hcell', -⟩ := hframe.afterBegin hcell
    have hfollows := hr.follows id overrides e state ((Engine.codes_of_cell hcell).symm.trans hcode)
    have hcodes : (e.beginRun id).codes = e.codes := Engine.codes_eq_of_told (e.told_beginRun id)
    obtain ⟨hreply, hgraph, hend⟩ :=
      h deeper _ (e.beginRun id) _ run rfl hcodes (hsound.beginRun id) hfollows hrun
    rw [Turn.concluded_of_ok hslot hcell' hreply]
    refine ⟨rfl, hgraph, hend.publish (fun _ hp => hp) hcell' hid
      (hsupports.mono ?_ (fun _ hp => hp) ?_) _⟩
    · exact (Engine.codes_eq_of_told hframe.told).trans hcodes
    · exact fun _ _ _ hedge => hgraph ▸ hedge

/-- What a supported cell is answered with, whether it is run or not. -/
theorem Answers.executeWith (hr : runner.Pure script) {e : Engine V} {id : CellId} {code : String}
    {output : Output V} (h : Answers runner script busy e.graph e.codes id (script code) output)
    (hsound : Sound script busy e) (hcycle : e.graph.hasCycle = false) (hid : id ∉ busy)
    (hcode : e.codes id = some code) (hsupports : e.Supports script busy id output) {limit : Nat}
    {overrides : FlagOverrides} {state : σ} {t : Turn V σ (Except Fault (Output V))}
    (ht : Notebook.executeWith (Notebook.runFresh runner limit) id overrides e state = some t) :
    t.reply = .ok output ∧ t.engine.graph = e.graph ∧ Sound script busy t.engine := by
  obtain ⟨hcell, -⟩ | ⟨cell, hcell, hcache, rfl⟩ | ⟨cell, -, -, ht⟩ := executeWith_cases ht
  · rw [Engine.codes, hcell] at hcode
    cases hcode
  · rw [hsound.usesCache_eq hcell, Bool.not_eq_true'] at hcache
    obtain ⟨stored, hstored, hevaluation⟩ := hsound.stored id cell hcell hcache
    rw [Evaluates.unique hevaluation hsupports] at hstored
    exact ⟨by simp only [Engine.cachedOutput, hcell, hstored], rfl, hsound⟩
  · exact h.runFresh hr hsound hcycle hid hcode hsupports ht

/-- By induction on the evaluation. -/
theorem answers_of_yields (hr : runner.Pure script) {g : Graph} (hcycle : g.hasCycle = false)
    {codes : CellId → Option String} {cell : CellId} {s : Script V} {output : Output V}
    (h : Script.Yields script codes (fun p c => (p, c) ∈ g ∧ p ∉ busy) cell s output) :
    Answers runner script busy g codes cell s output := by
  induction h with
  | finish cell output =>
    intro limit program e state t hgraph _ hsound hfollows ht
    cases hfollows
    rw [perform_done] at ht
    cases ht
    exact ⟨rfl, hgraph, hsound⟩
  | @read cell id next code value output hread hcode hvalue hnext ihvalue ihnext =>
    intro limit program e state t hgraph hcodes hsound hfollows ht
    cases hfollows with
    | read hok _ =>
      rw [perform_read] at ht
      obtain ⟨first, hfirst, ht⟩ := Option.bind_eq_some_iff.1 ht
      obtain ⟨second, hsecond, rfl⟩ := Option.map_eq_some_iff.1 ht
      subst hgraph hcodes
      obtain ⟨hnone, -⟩ | ⟨hself, -⟩ | ⟨run, -, -, hrun, rfl⟩ := readWith_cases hfirst
      · rw [Engine.contains_of_codes hcode] at hnone
        exact Bool.noConfusion hnone
      · have hself : id = cell := hself
        exact absurd (.single (hself ▸ hread.1)) (Graph.not_feeds_self hcycle cell)
      · rw [Engine.apply_connect, Engine.connect_eq_self hread.1] at hrun
        obtain ⟨hreply, hgraph, hmiddle⟩ :=
          ihvalue.executeWith hr hsound hcycle hread.2 hcode ⟨code, hcode, hvalue⟩ hrun
        have hframe := framed_executeWith (framed_runFresh hr.onlyReads limit) id {} _ _ _ hrun
        have hsecond : perform (runFresh runner limit) _ run.engine run.state = some second :=
          hsecond
        simp only [hreply] at hsecond
        exact ihnext limit _ _ _ second hgraph (Engine.codes_eq_of_told hframe.told) hmiddle
          (hok run.state value.view) hsecond

/-- **The run of a supported cell succeeds**, and leaves the graph alone. -/
theorem Sound.runFresh_of_supports (hr : runner.Pure script) {e : Engine V}
    (h : Sound script busy e) (hcycle : e.graph.hasCycle = false) {id : CellId} (hid : id ∉ busy)
    {output : Output V} (hsupports : e.Supports script busy id output) {limit : Nat}
    {overrides : FlagOverrides} {state : σ} {t : Turn V σ (Except Fault (Output V))}
    (ht : runFresh runner limit id overrides e state = some t) :
    t.reply = .ok output ∧ t.engine.graph = e.graph ∧ Sound script busy t.engine := by
  obtain ⟨code, hcode, hyields⟩ := hsupports
  exact (answers_of_yields hr hcycle hyields).runFresh hr h hcycle hid hcode
    ⟨code, hcode, hyields⟩ ht

end

/-! ## 3. Runs of any cell -/

/-- What comes of an act that may fail: the stored outputs stay sound, and if there is a value
then no edge was taken away and `holds` is true of it. -/
structure Delivers {ε α : Type} (script : String → Script V) (busy : List CellId) (e : Engine V)
    (t : Turn V σ (Except ε α)) (holds : Engine V → α → Prop) : Prop where
  sound : Sound script busy t.engine
  kept : ∀ value, t.reply = .ok value → ∀ p c, (p, c) ∈ e.graph → (p, c) ∈ t.engine.graph
  holds : ∀ value, t.reply = .ok value → holds t.engine value

/-- Nothing but soundness is promised of a failure. -/
theorem Delivers.of_error {ε α : Type} {script : String → Script V} {busy : List CellId}
    {e : Engine V} {t : Turn V σ (Except ε α)} {holds : Engine V → α → Prop} {failure : ε}
    (h : t.reply = .error failure) (hsound : Sound script busy t.engine) :
    Delivers script busy e t holds where
  sound := hsound
  kept value hvalue := by
    rw [h] at hvalue
    cases hvalue
  holds value hvalue := by
    rw [h] at hvalue
    cases hvalue

/-- The operation delivers the evaluation of a stale cell that feeds all busy cells. -/
def FreshRun.Delivers (script : String → Script V) (fresh : FreshRun V σ) : Prop :=
  ∀ busy id overrides e state t, Sound script busy e → (∀ other ∈ busy, e.graph.Feeds id other) →
    (∀ cell, e.cells[id]? = some cell → cell.stale = true) → fresh id overrides e state = some t →
    Notebook.Delivers script busy e t fun e' output => id ∉ busy ∧ e'.Supports script busy id output

section

variable {script : String → Script V} {fresh : FreshRun V σ} {busy : List CellId}

theorem delivers_executeWith (h : FreshRun.Delivers script fresh) {e : Engine V}
    (hsound : Sound script busy e) {id : CellId} (hfeeds : ∀ other ∈ busy, e.graph.Feeds id other)
    {overrides : FlagOverrides} {state : σ} {t : Turn V σ (Except Fault (Output V))}
    (ht : executeWith fresh id overrides e state = some t) :
    Delivers script busy e t fun e' output => id ∉ busy ∧ e'.Supports script busy id output := by
  obtain ⟨-, rfl⟩ | ⟨cell, hcell, hcache, rfl⟩ | ⟨cell, hcell, hcache, ht⟩ := executeWith_cases ht
  · exact .of_error rfl hsound
  · rw [hsound.usesCache_eq hcell, Bool.not_eq_true'] at hcache
    obtain ⟨output, hstored, hsupports⟩ := hsound.stored id cell hcell hcache
    refine ⟨hsound, fun _ _ _ _ hedge => hedge, fun value hvalue =>
      ⟨hsound.idle id cell hcell hcache, ?_⟩⟩
    simp only [Engine.cachedOutput, hcell, hstored, Except.ok.injEq] at hvalue
    exact hvalue ▸ hsupports
  · rw [hsound.usesCache_eq hcell, Bool.not_eq_false'] at hcache
    refine h busy id overrides e state t hsound hfeeds (fun cell' hcell' => ?_) ht
    rw [hcell] at hcell'
    cases hcell'
    exact hcache

/-- The reads of a busy cell, one after the other. A failed read ends the run. -/
theorem delivers_perform (h : FreshRun.Delivers script fresh) (hframe : FreshRun.Framed fresh)
    {id : CellId} {program : Program V σ (Except RunFailure (Output V))} {s : Script V}
    (hfollows : program.Follows ⟨id⟩ s) {e : Engine V} (hsound : Sound script busy e)
    (hfeeds : ∀ other ∈ busy, other = id ∨ e.graph.Feeds id other) {state : σ}
    {t : Turn V σ (Except RunFailure (Output V))} (ht : perform fresh program e state = some t) :
    Delivers script busy e t fun e' output =>
      Script.Yields script e'.codes (e'.Reads busy) id s output := by
  induction hfollows generalizing e state t with
  | finish state' outcome =>
    rw [perform_done] at ht
    cases ht
    refine ⟨hsound, fun _ _ _ _ hedge => hedge, fun value hvalue => ?_⟩
    have houtcome : outcome = .ok value := hvalue
    rw [houtcome]
    exact .finish id value
  | @read state' parent next rest hok herror ih =>
    rw [perform_read] at ht
    obtain ⟨first, hfirst, ht⟩ := Option.bind_eq_some_iff.1 ht
    obtain ⟨second, hsecond, rfl⟩ := Option.map_eq_some_iff.1 ht
    have hfailed : ∀ fault, first.reply = .error fault → Sound script busy first.engine →
        Delivers script busy e (second.behind first.events) fun e' output =>
          Script.Yields script e'.codes (e'.Reads busy) id (.read parent rest) output := by
      intro fault hreply hmiddle
      obtain ⟨s', failure, hdone⟩ := herror first.state fault
      rw [hreply, hdone, perform_done] at hsecond
      cases hsecond
      exact .of_error rfl hmiddle
    obtain ⟨-, rfl⟩ | ⟨-, rfl⟩ | ⟨run, -, -, hrun, rfl⟩ := readWith_cases hfirst
    · exact hfailed _ rfl hsound
    · exact hfailed _ rfl hsound
    -- The edge of the read makes the cell that is read feed all busy cells.
    have hedge : (parent, id) ∈ (e.connect parent id).graph :=
      Engine.mem_graph_connect.2 (.inl ⟨rfl, rfl⟩)
    have hgrow : ∀ p c, (p, c) ∈ e.graph → (p, c) ∈ (e.connect parent id).graph := fun p c h =>
      Engine.mem_graph_connect.2 (.inr h)
    have hparent : ∀ other ∈ busy, (e.connect parent id).graph.Feeds parent other := by
      intro other hother
      rcases hfeeds other hother with rfl | hfeeds
      · exact .single hedge
      · exact .head hedge (hfeeds.mono hgrow)
    have hread := delivers_executeWith h (hsound.connect parent id) hparent hrun
    obtain ⟨fault, hreply⟩ | ⟨value, hreply⟩ :
        (∃ fault, run.reply = .error fault) ∨ ∃ value, run.reply = .ok value := by
      cases run.reply <;> simp
    · exact hfailed fault (by rw [hreply]; rfl) hread.sound
    · obtain ⟨hnot, code, hcode, hvalue⟩ := hread.holds value hreply
      have hkept := hread.kept value hreply
      have hsecond : perform fresh _ run.engine run.state = some second := hsecond
      simp only [hreply] at hsecond
      have hfeeds' : ∀ other ∈ busy, other = id ∨
          run.engine.graph.Feeds id other := fun other hother =>
        (hfeeds other hother).imp_right fun h => h.mono fun p c hpc => hkept p c (hgrow p c hpc)
      have hrest := ih run.state value.view hread.sound hfeeds' hsecond
      have hframe' := frame_of_perform hframe (hok run.state value.view).onlyReads hsecond
      refine ⟨hrest.sound, fun output houtput p c hpc => ?_, fun output houtput => ?_⟩
      · exact hrest.kept output houtput p c (hkept p c (hgrow p c hpc))
      · have hcodes := Engine.codes_eq_of_told hframe'.told
        have hlater := hrest.kept output houtput
        refine .read ⟨hlater _ _ (hkept _ _ hedge), hnot⟩ (hcodes ▸ hcode) ?_
          (hrest.holds output houtput)
        show Script.Yields script second.engine.codes _ _ _ _
        rw [hcodes]
        exact hvalue.mono fun p c hpc => ⟨hlater p c hpc.1, hpc.2⟩

end

/-- **The stored outputs stay sound**, whichever stale cell is run. -/
theorem delivers_runFresh {runner : Runner V σ} {script : String → Script V}
    (hr : runner.Pure script) (limit : Nat) : FreshRun.Delivers script (runFresh runner limit) := by
  induction limit with
  | zero =>
    intro busy id overrides e state t hsound _ _ ht
    obtain ⟨fault, rfl⟩ | ⟨deeper, cell, run, cell', hlimit, -⟩ := hr.onlyReads.runFresh_cases ht
    · exact .of_error rfl hsound
    · cases hlimit
  | succ limit ih =>
    intro busy id overrides e state t hsound hfeeds hstale ht
    have hanswer := ht
    obtain ⟨fault, rfl⟩ | ⟨deeper, cell, run, cell', hlimit, hcycle, hcell, hrun, hframe, hcell',
        htold, hend⟩ :=
      hr.onlyReads.runFresh_cases ht
    · exact .of_error rfl hsound
    cases hlimit
    have hid : id ∉ busy := fun h => Graph.not_feeds_self hcycle id (hfeeds id h)
    by_cases hsupported : ∃ output, e.Supports script busy id output
    · obtain ⟨output, hsupports⟩ := hsupported
      obtain ⟨hreply, hgraph, hafter⟩ := hsound.runFresh_of_supports hr hcycle hid hsupports hanswer
      have htold := (framed_runFresh hr.onlyReads (limit + 1) _ _ _ _ _ hanswer).told
      refine ⟨hafter, fun _ _ _ _ hpc => hgraph ▸ hpc, fun value hvalue => ⟨hid, ?_⟩⟩
      rw [hreply] at hvalue
      cases hvalue
      exact hsupports.mono (Engine.codes_eq_of_told htold) (fun _ hp => hp)
        fun _ _ _ hpc => hgraph ▸ hpc
    · -- The run may fail, and until it ends its cell is busy.
      have hbusy := (hsound.busy_cons hstale fun output h => hsupported ⟨output, h⟩).beginRun id
      obtain ⟨code, hcode⟩ := hsound.exists_code hcell
      have hmine : ∀ other ∈ id :: busy, other = id ∨
          (e.beginRun id).graph.Feeds id other := fun other hother =>
        (List.mem_cons.1 hother).imp_right (hfeeds other)
      have hdelivers := delivers_perform ih (framed_runFresh hr.onlyReads limit)
        (hr.follows id overrides e state hcode) hbusy hmine hrun
      obtain ⟨output, hreply, rfl⟩ | ⟨failure, -, rfl⟩ := hend
      · have hyields := hdelivers.holds output hreply
        have hsupports : run.engine.Supports script (id :: busy) id output := by
          refine ⟨code, ?_, hyields⟩
          rw [Engine.codes_of_cell hcell', Cell.persistentCode_eq_of_told htold, hcode]
        refine ⟨hdelivers.sound.publish (fun _ hp => List.mem_cons_of_mem _ hp) hcell'
          hid hsupports _, fun _ _ => hdelivers.kept output hreply, fun value hvalue => ⟨hid, ?_⟩⟩
        cases hvalue
        exact hsupports.mono (Engine.codes_eq_of_told (Engine.told_publish hcell' _))
          (fun _ hp => List.mem_cons_of_mem _ hp) fun _ _ _ hpc => hpc
      · exact .of_error rfl (hdelivers.sound.failRun _)

end Notebook
