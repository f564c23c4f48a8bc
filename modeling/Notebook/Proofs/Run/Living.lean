import Notebook.Proofs.Run.Tags

/-!
# Links name living cells

Anybody may register a tag by hand for whatever identity he likes. Left to itself the notebook
registers tags for two reasons. A request registers what the cells of the table declare, and a
publication registers what the output of a cell carries, if that cell is in the table. A cell
leaves the table when a batch leaves it out, or when the notebook is cleared or restored, and then
everything that it defines is forgotten. So, however runs and batches interleave,

> **the registry names cells of the table only**, and **no tag resolves to a deleted cell**.

Definers and their tags are cleaned up together. That the stacks are clean as well is the business
of the registry: a cell is on the stack of a tag only if it defines the tag.
-/

set_option autoImplicit false

namespace Notebook

open Std

variable {V σ : Type}

/-! ## 1. What the registry names -/

namespace Engine

/-- Every cell that defines a tag is in the table. -/
def Living (e : Engine V) : Prop :=
  ∀ tag c, tag ∈ e.links.tagsOf c → e.contains c = true

/-- A step keeps the cells whose tags it does not forget. -/
theorem contains_apply {e : Engine V} {s : Step V} {c : CellId} (h : e.contains c = true)
    (hkept : ¬ s.Forgets c e) : (e.apply s).contains c = true := by
  have htold : (∀ c, (e.apply s).told c = e.told c) → (e.apply s).contains c = true := by
    intro htold
    rwa [contains_of_told (htold c)]
  cases s with
  | edit operation =>
    cases operation with
    | update batch =>
      have hin : c ∉ e.leftOut batch := fun hc => hkept (.inl hc)
      exact (contains_update e batch c).trans (contains_of_not_mem_leftOut h hin)
    | clear | restore => exact absurd trivial hkept
    | _ =>
      refine htold (apply_of_silent ?_ e).2.2
      trivial
  | beginRun id => exact htold (e.told_beginRun id)
  | connect parent child => exact h
  | write context id output => exact htold (e.told_apply_write context id output)
  | failRun id => exact htold (e.told_failRun id)
  | resume slot => exact h

/-- A batch only forgets. -/
theorem backed_update {e : Engine V} (h : e.links.Backed) (batch : Batch) :
    (e.update batch).links.Backed :=
  update_keeps (fun e => e.links.Backed) (fun _ id he => he.removeLinks id)
    (fun _ id he => he.removeLinks id) (fun _ _ _ he => he) h batch

theorem backed_write {e : Engine V} (h : e.links.Backed) (context : Context) (id : CellId)
    (output : Output V) : (e.apply (.write context id output)).links.Backed := by
  obtain hsame | ⟨cell, -, -, -, hpublished⟩ := e.apply_write_cases context id output
  · rwa [hsame]
  · rw [hpublished, links_publish]
    exact List.foldlRecOn _ _ h fun l hl tag _ => hl.addLink tag id true

/-- **Whoever is current for a tag defines it**, whatever is done to the notebook. -/
theorem backed_apply {e : Engine V} (h : e.links.Backed) (s : Step V) :
    (e.apply s).links.Backed := by
  cases s with
  | edit operation =>
    cases operation with
    | update batch => exact backed_update h batch
    | addLink tag cell makeCurrent => exact h.addLink tag cell makeCurrent
    | addLinks declared => exact h.addLinks declared
    | removeLinks cell => exact h.removeLinks cell
    | clear => exact .empty
    | restore document =>
      have hempty : (e.apply (.edit (.restore document))).links = ∅ := e.links_restore document
      rw [hempty]
      exact .empty
    | invalidate id | setRunning id =>
      rw [links_apply_modifyCell rfl]
      exact h
    | markDescendantsStale | resetDidRun | overrideFlags | dropDeleted => exact h
  | write context id output => exact backed_write h context id output
  | failRun id =>
    have hsame : (e.apply (.failRun id)).links = e.links := e.links_failRun id
    rwa [hsame]
  | beginRun | connect | resume => exact h

theorem backed_after (flags : RunFlags) (events : List (Event V)) :
    ((withFlags flags : Engine V).after events).links.Backed := by
  have hkept : ∀ (e : Engine V) s, e.links.Backed → (e.apply s).links.Backed :=
    fun _ s he => backed_apply he s
  exact after_keeps hkept .empty events

end Engine

/-! ## 2. What registers tags -/

/-- Apart from publications, tags are registered as the cells declare them by then. -/
def Event.AsDeclared (now : Engine V) : Event V → Prop
  | .step (.edit (.addLinks declared)) => declared = now.declarations
  | .step (.edit (.addLink _ _ _)) => False
  | _ => True

def Law.declared : Law V := Law.now Event.AsDeclared

/-- Anything but registering tags by hand. -/
def Command.LinksNothing : Command V → Prop
  | .edit (.addLink _ _ _) | .edit (.addLinks _) => False
  | _ => True

namespace Law

theorem lasting_declared : (declared : Law V).Lasting := lasting_now Event.AsDeclared

theorem obeys_declared_carryOut {fresh : FreshRun V σ} (hfresh : fresh.Obeys declared)
    {command : Command V} (hlinks : command.LinksNothing) :
    (carryOut fresh command).Obeys declared := by
  have hlaw := lasting_declared (V := V)
  cases command with
  | edit operation =>
    refine hlaw.obeys_step ?_
    intro e
    cases operation with
    | addLink | addLinks => exact hlinks.elim
    | _ => trivial
  | inspect => exact hlaw.composed.engine
  | read context id =>
    exact hlaw.composed.readWith hfresh (hlaw.obeys_step fun _ => trivial) fun _ =>
      hlaw.obeys_answered fun _ => trivial
  | write context id output => exact hlaw.obeys_step fun _ => trivial
  | execute id overrides => exact hlaw.composed.executeWith hfresh id overrides
  | cascade id => exact hlaw.composed.cascadeWith hfresh id
  | request request =>
    refine hlaw.obeys_requestWith hfresh (fun _ _ => rfl) ?_ request
    intro operation hoperation hother e
    cases operation with
    | addLinks declared => exact absurd rfl (hother declared)
    | addLink => exact hoperation.elim
    | _ => trivial

theorem governs_declared {runner : Runner V σ} (hr : runner.Asks Command.LinksNothing) :
    declared.Governs runner Command.LinksNothing where
  toLasting := lasting_declared
  asks := hr
  command _ hfresh _ hlinks := obeys_declared_carryOut hfresh hlinks
  beginRun _ _ := trivial
  failRun _ _ := trivial
  resume _ _ := trivial
  write _ _ _ _ _ _ _ _ _ _ _ := trivial

end Law

/-- What is registered is registered for a cell of the table. -/
theorem Engine.contains_of_registers {e : Engine V} {s : Step V} (h : (Event.step s).AsDeclared e)
    {tag : Tag} {c : CellId} (hregisters : s.Registers tag c e) : e.contains c = true := by
  cases s with
  | edit operation =>
    cases operation with
    | addLinks declared =>
      obtain rfl : declared = e.declarations := h
      obtain ⟨cell, hcell, -⟩ := mem_declarations.1 hregisters
      exact contains_of_cell hcell
    | addLink => exact h.elim
    | _ => exact hregisters.elim
  | write context id output =>
    obtain ⟨rfl, -, next, hwrite⟩ := hregisters
    obtain ⟨cell, hcell, -⟩ := eq_publish_of_write hwrite
    exact contains_of_cell hcell
  | _ => exact hregisters.elim

theorem Step.Registers.not_forgets {tag : Tag} {c : CellId} {e : Engine V} {s : Step V}
    (h : s.Registers tag c e) : ¬ s.Forgets c e := by
  intro hforgets
  cases s with
  | edit operation => cases operation <;> first | exact h | exact hforgets
  | _ => exact hforgets

/-- **One more event**: what is registered is there, and what leaves the table is forgotten. -/
theorem Engine.Living.after_event {e : Engine V} (h : e.Living) {event : Event V}
    (hevent : event.AsDeclared e) : (e.after [event]).Living := by
  cases event with
  | step s =>
    intro tag c htag
    have happly : e.after [.step s] = e.apply s := rfl
    rw [happly] at htag ⊢
    cases mem_tagsOf_apply.1 htag with
    | inl hregisters =>
      exact contains_apply (contains_of_registers hevent hregisters) hregisters.not_forgets
    | inr hkept => exact contains_apply (h tag c hkept.1) hkept.2
  | answered context id reply => exact h
  | bound name value => exact h

theorem Engine.Living.after {start : Engine V} (h : start.Living) {events : List (Event V)}
    (hlaw : Law.declared.Holds start events) :
    ∀ before later, events = before ++ later → (start.after before).Living := by
  refine hlaw.induct h ?_
  intro before event behind hevent hbefore
  rw [after_append]
  exact hbefore.after_event hevent

/-! ## 3. Histories -/

/-- **Links name living cells**, at any moment in the course of the history: what
defines a tag, what has tags and what is current for a tag is in the table, so what a
tag resolves to is there. -/
theorem Runner.Asks.links_living {runner : Runner V σ} (hr : runner.Asks Command.LinksNothing)
    {flags : RunFlags} {events : List (Event V)} {e : Engine V}
    (h : runner.History (fun _ command => command.LinksNothing) (.withFlags flags) events e) :
    e = (Engine.withFlags flags).after events ∧
    ∀ before later, events = before ++ later →
      let now := (Engine.withFlags flags).after before
      (∀ tag c, c ∈ now.links.definers tag → now.contains c = true) ∧
      (∀ c, (now.links.tagsOf? c).isSome = true → now.contains c = true) ∧
      (∀ tag c, c ∈ now.links.stack tag → now.contains c = true) ∧
      (∀ tag c, now.links.current tag = .ok c → now.contains c = true) ∧
      ∀ tag requester c, now.links.external tag requester = .ok c → now.contains c = true := by
  have hlaw : Law.declared.Holds (.withFlags flags) events :=
    h.obeys Law.lasting_declared fun e command limit s t _ _ hlinks ht =>
      (Law.obeys_declared_carryOut ((Law.governs_declared hr).runFresh limit) hlinks e s t ht).2
  have hstart : (Engine.withFlags flags : Engine V).Living := by
    intro tag c htag
    have hnone : tag ∈ (∅ : Links).tagsOf c := htag
    simp at hnone
  refine ⟨h.eq_after, ?_⟩
  intro before later hsplit
  have hliving := hstart.after hlaw before later hsplit
  have hbacked := Engine.backed_after flags before
  have hstack : ∀ tag c, c ∈ ((Engine.withFlags flags).after before).links.stack tag →
      ((Engine.withFlags flags).after before).contains c = true := by
    intro tag c hc
    exact hliving tag c (Links.mem_tagsOf.2 (hbacked tag c hc))
  refine ⟨fun tag c hc => hliving tag c (Links.mem_tagsOf.2 hc), ?_, hstack, ?_, ?_⟩
  · intro c hc
    obtain ⟨tag, htag⟩ := Links.exists_mem_tagsOf hc
    exact hliving tag c htag
  · intro tag c hc
    exact hstack tag c (List.mem_of_find?_eq_some (Links.current_eq_ok.1 hc))
  · intro tag requester c hc
    exact hstack tag c (List.mem_of_find?_eq_some (Links.external_eq_ok.1 hc))

/-- Whatever cell is run, cell 0 is deleted first. Then the output with its tag is offered. -/
def deleter : Runner Unit Unit := fun _ _ state =>
  .ask state (.edit (.update ((∅ : Batch).insert ⟨1⟩ (.ofCode "delete")))) fun s _ =>
    .done s (.ok heralded)

theorem deleter_linksNothing : deleter.Asks Command.LinksNothing := by
  intro request state
  exact .ask trivial fun s _ => .done s _

/-- Cell 0 declares the tag, and is run. Then cell 1 is run. -/
def deletion : List (Command Unit) :=
  [.request ⟨⟨0⟩, (∅ : Batch).insert ⟨0⟩ ((Revision.ofCode "delete").withOutputTag ⟨"y"⟩)
    |>.insert ⟨1⟩ (.ofCode "delete"), {}⟩, .execute ⟨1⟩ {}]

/-- When its run begins, the tag resolves to cell 0. The run deletes the cell and its publication
is refused. In the end the tag resolves to cell 1. -/
theorem deleter_links_living :
    ∃ events e, deleter.session 1 deletion (.withFlags {}) () = some (events, e) ∧
    ((Engine.withFlags {}).after (events.take 5)).links.external ⟨"y"⟩ ⟨2⟩ = .ok ⟨0⟩ ∧
    e.contains ⟨0⟩ = false ∧ e.links.external ⟨"y"⟩ ⟨2⟩ = .ok ⟨1⟩ ∧ e.contains ⟨1⟩ = true := by
  obtain ⟨⟨events, e⟩, hsession, hfound⟩ :
      ∃ found, deleter.session 1 deletion (.withFlags {}) () = some found ∧
      decide (((Engine.withFlags {}).after (found.1.take 5)).links.external ⟨"y"⟩ ⟨2⟩ = .ok ⟨0⟩ ∧
        found.2.contains ⟨0⟩ = false ∧ found.2.links.external ⟨"y"⟩ ⟨2⟩ = .ok ⟨1⟩) = true :=
    (Option.any_eq_true _ _).1 (by decide +kernel)
  obtain ⟨hbefore, hgone, hresolved⟩ := of_decide_eq_true hfound
  have hstart : deleter.History (fun _ command => command.LinksNothing) (.withFlags {}) []
    (.withFlags {}) := .start
  have hcommands : ∀ command ∈ deletion, command.LinksNothing := by
    intro command hcommand
    simp only [deletion, List.mem_cons, List.not_mem_nil, or_false] at hcommand
    rcases hcommand with rfl | rfl <;> trivial
  have hhistory := hstart.append_session
    (fun command hcommand _ => hcommands command hcommand) hsession
  obtain ⟨he, hliving⟩ := deleter_linksNothing.links_living hhistory
  obtain ⟨-, -, -, -, hexternal⟩ := hliving events [] (List.append_nil events).symm
  refine ⟨events, e, hsession, hbefore, hgone, hresolved, ?_⟩
  subst he
  exact hexternal _ _ _ hresolved

end Notebook
