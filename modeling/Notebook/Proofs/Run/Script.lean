import Notebook.Proofs.Run.Readers

/-!
# Pure runs

A run is *pure* if what it does depends on nothing but the code of the cell. It reads cells one
after the other, each chosen from what was read so far, fails as soon as a read fails, and ends in
an output or a failure of its own. What such a run does is a *script*.

For a notebook whose runs are pure there is an answer to the question what a cell should store
that mentions neither caches nor graphs: its *evaluation*, in which every read is answered by the
evaluation of the cell that is read. A cell has at most one.

An evaluation comes with the reads it makes. So it can be asked whether it keeps to given edges,
and it is the same wherever these edges and the codes at their ends are the same.
-/

set_option autoImplicit false

namespace Notebook

variable {V σ : Type}

/-! ## 1. Scripts -/

/-- What a pure run does. -/
inductive Script (V : Type) where
  | finish (outcome : Except RunFailure (Output V))
  | read (id : CellId) (next : Output V → Script V)

/-- The rest of a run of `cell` ends in `output`, if each read is answered by what the
cell that is read comes to under the current codes. The reads are those that `reads`
allows, with the reader second. -/
inductive Script.Yields (script : String → Script V) (codes : CellId → Option String)
    (reads : CellId → CellId → Prop) : CellId → Script V → Output V → Prop
  | finish (cell : CellId) (output : Output V) : Yields script codes reads cell
      (.finish (.ok output)) output
  | read {cell id : CellId} {next : Output V → Script V} {code : String} {value output : Output V}
      (hread : reads id cell) (hcode : codes id = some code)
      (hvalue : Yields script codes reads id (script code) value)
      (hnext : Yields script codes reads cell (next value.view) output) :
      Yields script codes reads cell (.read id next) output

/-- The evaluation of `cell` under the current codes is `output`. -/
def Evaluates (script : String → Script V) (codes : CellId → Option String)
    (reads : CellId → CellId → Prop) (cell : CellId) (output : Output V) : Prop :=
  ∃ code, codes cell = some code ∧ Script.Yields script codes reads cell (script code) output

section

variable {script : String → Script V} {codes codes' : CellId → Option String}
  {reads reads' : CellId → CellId → Prop} {cell : CellId} {output output' : Output V}

theorem Script.Yields.unique {s : Script V} (h : Yields script codes reads cell s output)
    (h' : Yields script codes reads' cell s output') : output = output' := by
  induction h generalizing output' with
  | finish cell output =>
    cases h'
    rfl
  | read _ hcode _ _ ihvalue ihnext =>
    cases h' with
    | read _ hcode' hvalue' hnext' =>
      rw [hcode] at hcode'
      cases hcode'
      rw [← ihvalue hvalue'] at hnext'
      exact ihnext hnext'

/-- **A cell has at most one evaluation**, whatever it reads. -/
theorem Evaluates.unique (h : Evaluates script codes reads cell output)
    (h' : Evaluates script codes reads' cell output') : output = output' := by
  obtain ⟨code, hcode, h⟩ := h
  obtain ⟨code', hcode', h'⟩ := h'
  rw [hcode] at hcode'
  cases hcode'
  exact h.unique h'

/-- An evaluation within cells whose codes and reads are the same elsewhere. The cells are closed
under the reads that their evaluations make. -/
theorem Script.Yields.transfer (within : CellId → Prop)
    (hclosed : ∀ p c, within c → reads p c → within p)
    (hreads : ∀ p c, within c → reads p c → reads' p c)
    (hcodes : ∀ c, within c → codes' c = codes c) {s : Script V}
    (h : Yields script codes reads cell s output) (hcell : within cell) :
    Yields script codes' reads' cell s output := by
  induction h with
  | finish cell output => exact .finish cell output
  | read hread hcode _ _ ihvalue ihnext =>
    have hwithin := hclosed _ _ hcell hread
    exact .read (hreads _ _ hcell hread) ((hcodes _ hwithin).trans hcode) (ihvalue hwithin)
      (ihnext hcell)

theorem Evaluates.transfer (within : CellId → Prop)
    (hclosed : ∀ p c, within c → reads p c → within p)
    (hreads : ∀ p c, within c → reads p c → reads' p c)
    (hcodes : ∀ c, within c → codes' c = codes c) (h : Evaluates script codes reads cell output)
    (hcell : within cell) : Evaluates script codes' reads' cell output := by
  obtain ⟨code, hcode, h⟩ := h
  exact ⟨code, (hcodes cell hcell).trans hcode, h.transfer within hclosed hreads hcodes hcell⟩

theorem Script.Yields.mono (hreads : ∀ p c, reads p c → reads' p c) {s : Script V}
    (h : Yields script codes reads cell s output) : Yields script codes reads' cell s output :=
  h.transfer (fun _ => True) (fun _ _ _ _ => trivial) (fun p c _ => hreads p c)
    (fun _ _ => rfl) trivial

theorem Evaluates.mono (hreads : ∀ p c, reads p c → reads' p c)
    (h : Evaluates script codes reads cell output) : Evaluates script codes reads' cell output := by
  obtain ⟨code, hcode, h⟩ := h
  exact ⟨code, hcode, h.mono hreads⟩

/-- A cell without an evaluation occurs in no evaluation. -/
theorem Script.Yields.avoid {other : CellId}
    (hother : ∀ value, ¬ Evaluates script codes reads other value) {s : Script V}
    (h : Yields script codes reads cell s output) :
    Yields script codes (fun p c => reads p c ∧ p ≠ other) cell s output := by
  induction h with
  | finish cell output => exact .finish cell output
  | @read cell id next code value output hread hcode hvalue _ ihvalue ihnext =>
    refine .read ⟨hread, ?_⟩ hcode ihvalue ihnext
    rintro rfl
    exact hother value ⟨code, hcode, hvalue⟩

theorem Evaluates.avoid {other : CellId}
    (hother : ∀ value, ¬ Evaluates script codes reads other value)
    (h : Evaluates script codes reads cell output) :
    Evaluates script codes (fun p c => reads p c ∧ p ≠ other) cell output := by
  obtain ⟨code, hcode, h⟩ := h
  exact ⟨code, hcode, h.avoid hother⟩

end

/-! ## 2. Runners that follow a script -/

/-- The program reads what the script reads, goes on as the script does, whatever state the runner
is in, and ends with a failure when a read fails. -/
inductive Program.Follows (context : Context) :
    Program V σ (Except RunFailure (Output V)) → Script V → Prop
  | finish (state : σ) (outcome : Except RunFailure (Output V)) :
      Follows context (.done state outcome) (.finish outcome)
  | read {state : σ} {id : CellId} {next : σ → (Command.read context id : Command V).Reply →
        Program V σ (Except RunFailure (Output V))} {rest : Output V → Script V}
      (hok : ∀ s value, Follows context (next s (.ok value)) (rest value))
      (herror : ∀ s fault, ∃ s' failure, next s (.error fault) = .done s' (.error failure)) :
      Follows context (.ask state (.read context id) next) (.read id rest)

/-- **A pure runner**: what a run does is the script of the code, and depends on nothing else. -/
def Runner.Pure (runner : Runner V σ) (script : String → Script V) : Prop :=
  ∀ request state, (runner ⟨request.cell⟩ request state).Follows ⟨request.cell⟩
    (script request.code)

theorem Program.Follows.onlyReads {context : Context}
    {program : Program V σ (Except RunFailure (Output V))} {s : Script V}
    (h : program.Follows context s) : program.OnlyReads context := by
  induction h with
  | finish state outcome => exact .done state outcome
  | read _ herror ih =>
    refine .read fun s reply => ?_
    cases reply with
    | ok value => exact ih s value
    | error fault =>
      obtain ⟨s', failure, hdone⟩ := herror s fault
      rw [hdone]
      exact .done s' _

theorem Runner.Pure.onlyReads {runner : Runner V σ} {script : String → Script V}
    (h : runner.Pure script) :
    runner.OnlyReads := fun request state => (h request state).onlyReads

/-- A run of a cell with a persistent code follows the script of that code. -/
theorem Runner.Pure.follows {runner : Runner V σ} {script : String → Script V}
    (h : runner.Pure script) (id : CellId) (overrides : FlagOverrides) (e : Engine V) (s : σ)
    {cell : Cell V} {code : String} (hcode : cell.persistentCode = some code) :
    (runner.programOf id overrides e s cell).Follows ⟨id⟩ (script code) := by
  have hrun : cell.runnableCode = code := by
    rw [Cell.runnableCode, hcode]
    rfl
  rw [Runner.programOf, hrun]
  exact h ⟨id, code, e.flags.override overrides⟩ s

end Notebook
