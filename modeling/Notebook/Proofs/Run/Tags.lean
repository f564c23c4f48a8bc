import Notebook.Proofs.Engine.Edits
import Notebook.Proofs.Links.Registry
import Notebook.Proofs.Run.Chronicle

/-!
# Which tags are recorded for a cell

Tags are recorded for a cell when somebody registers them for it, and when it publishes an
output that carries them. They are all forgotten together: when the cell is deleted, when its
persistent code changes, when somebody asks for it, or when the notebook is cleared or
restored. So, with any runner,

> **a tag is recorded for a cell** if it was registered for it and the cell's tags were not
> forgotten since.

A publication takes no tag away. What the cell declared before its run, or published earlier,
stays recorded next to the tags of the output, and the tags of the output are those that
resolve to the cell at once.
-/

set_option autoImplicit false

namespace Notebook

open Std

variable {V σ : Type}

/-! ## 1. One step -/

/-- Does the step record the tag for the cell? -/
def Step.Registers (tag : Tag) (c : CellId) (e : Engine V) : Step V → Prop
  | .write context id output =>
    id = c ∧ tag ∈ output.tags ∧ ∃ next, e.write context id output = .ok next
  | .edit (.addLink added cell _) => tag = added ∧ c = cell
  | .edit (.addLinks declared) => c ∈ declared.getD tag ∅
  | _ => False

/-- Does the step forget the tags of the cell? -/
def Step.Forgets (c : CellId) (e : Engine V) : Step V → Prop
  | .edit (.update batch) => e.Uproots batch c
  | .edit (.removeLinks cell) => c = cell
  | .edit .clear => True
  | .edit (.restore _) => True
  | _ => False

namespace Engine

variable {e : Engine V} {tag : Tag} {c : CellId}

/-- A batch forgets the tags of the cells that it leaves out and of those that it changes. -/
theorem mem_tagsOf_update {batch : Batch} :
    tag ∈ (e.update batch).links.tagsOf c ↔ tag ∈ e.links.tagsOf c ∧ ¬ e.Uproots batch c := by
  rw [links_update, Links.mem_tagsOf_foldl_removeLinks, List.mem_append, Uproots]

theorem mem_foldl_declare {id : CellId} {tags : List Tag} {found : Declarations} :
    c ∈ (tags.foldl (fun found tag => found.insert tag ((found.getD tag ∅).insert id)) found).getD
      tag ∅ ↔ tag ∈ tags ∧ c = id ∨ c ∈ found.getD tag ∅ := by
  induction tags generalizing found with
  | nil => simp
  | cons other tags ih =>
    have hinsert : ∀ cells : ExtTreeSet CellId, c ∈ cells.insert id ↔
        c = id ∨ c ∈ cells := fun cells => by
      rw [ExtTreeSet.mem_insert, Std.compare_eq_iff_eq, eq_comm]
    rw [List.foldl_cons, ih, ExtTreeMap.getD_insert, List.mem_cons]
    by_cases hother : tag = other
    · subst hother
      rw [if_pos compare_self, hinsert, or_iff_right_of_imp fun h => .inl h.2]
      simp
    · simp [hother, Ne.symm hother]

theorem mem_foldl_entries {entries : List (CellId × Cell V)} {found : Declarations} :
    c ∈ (entries.foldl (fun found entry => entry.2.outputTags.toList.foldl
      (fun found tag => found.insert tag ((found.getD tag ∅).insert entry.1)) found) found).getD tag
        ∅ ↔
      (∃ entry ∈ entries, tag ∈ entry.2.outputTags ∧ c = entry.1) ∨ c ∈ found.getD tag ∅ := by
  induction entries generalizing found with
  | nil => simp
  | cons entry entries ih =>
    rw [List.foldl_cons, ih, mem_foldl_declare, ExtTreeSet.mem_toList]
    simp only [List.mem_cons, exists_eq_or_imp, or_assoc]
    rw [or_left_comm]

/-- The declarations are the output tags of the cells. -/
theorem mem_declarations : c ∈ e.declarations.getD tag ∅ ↔
    ∃ cell, e.cells[c]? = some cell ∧ tag ∈ cell.outputTags := by
  rw [declarations, mem_foldl_entries]
  simp only [Prod.exists, ExtTreeMap.mem_toList_iff_getElem?_eq_some]
  constructor
  · rintro (⟨_, cell, hcell, htag, rfl⟩ | hnone)
    · exact ⟨cell, hcell, htag⟩
    · simp at hnone
  · rintro ⟨cell, hcell, htag⟩
    exact .inl ⟨c, cell, hcell, htag, rfl⟩

theorem links_publish (e : Engine V) (id : CellId) (cell : Cell V) (output : Output V) :
    (e.publish id cell output).links =
      output.tags.toList.foldl (fun links tag => links.addLink tag id true) e.links := rfl

theorem mem_tagsOf_publish {id : CellId} {cell : Cell V} {output : Output V} :
    tag ∈ (e.publish id cell output).links.tagsOf c ↔
      tag ∈ output.tags ∧ c = id ∨ tag ∈ e.links.tagsOf c := by
  rw [links_publish, Links.mem_tagsOf_foldl_addLink, ExtTreeSet.mem_toList]

/-- A tag that the output carries resolves to the cell, for every other cell too. -/
theorem resolves_publish {output : Output V} (htag : tag ∈ output.tags) (e : Engine V) (id : CellId)
    (cell : Cell V) :
    (e.publish id cell output).links.current tag = .ok id ∧
      ∀ requester, requester ≠ id →
        (e.publish id cell output).links.external tag requester = .ok id := by
  have hstack := Links.stack_foldl_addLink (ExtTreeSet.mem_toList.2 htag) e.links id
  rw [← links_publish e id cell] at hstack
  exact ⟨Links.current_of_stack hstack, fun requester hne =>
    Links.external_of_stack hstack hne.symm⟩

/-- **The tags of a cell after a step**, whichever step it is. -/
theorem mem_tagsOf_apply {s : Step V} : tag ∈ (e.apply s).links.tagsOf c ↔
    s.Registers tag c e ∨ tag ∈ e.links.tagsOf c ∧ ¬ s.Forgets c e := by
  have hkeeps : ∀ {s : Step V}, (e.apply s).links = e.links → ¬ s.Registers tag c e →
      ¬ s.Forgets c e →
      (tag ∈ (e.apply s).links.tagsOf c ↔
        s.Registers tag c e ∨ tag ∈ e.links.tagsOf c ∧ ¬ s.Forgets c e) := by
    intro s hlinks hregisters hforgets
    rw [hlinks, or_iff_right hregisters, and_iff_left hforgets]
  have hempties : ∀ {s : Step V}, (e.apply s).links = ∅ → ¬ s.Registers tag c e → s.Forgets c e →
      (tag ∈ (e.apply s).links.tagsOf c ↔
        s.Registers tag c e ∨ tag ∈ e.links.tagsOf c ∧ ¬ s.Forgets c e) := by
    intro s hlinks hregisters hforgets
    rw [hlinks, Links.tagsOf_empty, or_iff_right hregisters]
    exact iff_of_false ExtTreeSet.not_mem_empty fun h => h.2 hforgets
  cases s with
  | edit operation =>
    cases operation with
    | update batch => exact mem_tagsOf_update.trans (or_iff_right fun h => h).symm
    | addLink added cell makeCurrent =>
      exact Links.mem_tagsOf_addLink.trans (or_congr_right (and_iff_left fun h => h).symm)
    | addLinks declared =>
      exact Links.mem_tagsOf_addLinks.trans (or_congr_right (and_iff_left fun h => h).symm)
    | removeLinks cell => exact Links.mem_tagsOf_removeLinks.trans (or_iff_right fun h => h).symm
    | clear => exact hempties rfl (fun h => h) trivial
    | restore document => exact hempties (e.links_restore document) (fun h => h) trivial
    | invalidate id => exact hkeeps (links_apply_modifyCell rfl) (fun h => h) fun h => h
    | setRunning id => exact hkeeps (links_apply_modifyCell rfl) (fun h => h) fun h => h
    | markDescendantsStale | resetDidRun | overrideFlags | dropDeleted =>
      exact hkeeps rfl (fun h => h) fun h => h
  | write context id output =>
    cases hwrite : e.write context id output with
    | error fault =>
      have hsame : e.apply (.write context id output) = e := apply_of_error hwrite
      refine hkeeps (by rw [hsame]) ?_ fun h => h
      rintro ⟨-, -, next, hnext⟩
      cases hwrite.symm.trans hnext
    | ok next =>
      have htaken : e.apply (.write context id output) = next := apply_of_ok hwrite
      obtain ⟨cell, -, rfl⟩ := eq_publish_of_write hwrite
      rw [htaken, mem_tagsOf_publish]
      refine or_congr ⟨?_, ?_⟩ (and_iff_left fun h => h).symm
      · rintro ⟨htag, rfl⟩
        exact ⟨rfl, htag, _, hwrite⟩
      · rintro ⟨rfl, htag, -⟩
        exact ⟨htag, rfl⟩
  | failRun id => exact hkeeps (e.links_failRun id) (fun h => h) fun h => h
  | beginRun | connect | resume => exact hkeeps rfl (fun h => h) fun h => h

/-- **A tag is recorded for a cell** if it was registered and the tags of the cell
were not forgotten since. -/
theorem mem_tagsOf_after {start : Engine V} (hstart : start.links = ∅) (events : List (Event V)) :
    tag ∈ (start.after events).links.tagsOf c ↔
      Since (Step.Registers tag c) (Step.Forgets c) start events := by
  induction events using List.reverseRecOn with
  | nil =>
    refine iff_of_false ?_ not_since_nil
    show tag ∉ start.links.tagsOf c
    rw [hstart, Links.tagsOf_empty]
    exact ExtTreeSet.not_mem_empty
  | append_singleton events event ih =>
    rw [since_concat, ← ih, after_append]
    cases event with
    | step s =>
      have hstep : (start.after events).after [.step s] = (start.after events).apply s := rfl
      simp only [hstep, mem_tagsOf_apply, Event.step.injEq, exists_eq_left', forall_eq']
    | answered context id reply => exact (or_iff_right nofun).trans (and_iff_left nofun) |>.symm
    | bound name value => exact (or_iff_right nofun).trans (and_iff_left nofun) |>.symm

end Engine

/-! ## 2. Runners that only look -/

/-- What registers tags besides publications is a request, which registers what the cells declare
by then. What forgets tags is a batch. -/
def Law.registrations : Law V
  | e, before, .step (.edit (.addLinks declared)), _ => declared = (e.after before).declarations
  | _, _, .step (.edit (.addLink _ _ _)), _ => False
  | _, _, .step (.edit (.removeLinks _)), _ => False
  | _, _, .step (.edit .clear), _ => False
  | _, _, .step (.edit (.restore _)), _ => False
  | _, _, _, _ => True

/-- The calls that bring a batch or have code run. -/
def Command.Ordinary : Command V → Prop
  | .edit (.update _) | .execute _ _ | .cascade _ | .request _ => True
  | _ => False

namespace Law

theorem lasting_registrations : (registrations : Law V).Lasting where
  earlier e first before event behind h := by
    cases event with
    | step s =>
      cases s with
      | edit operation =>
        cases operation with
        | addLinks declared => rwa [registrations, Engine.after_append]
        | _ => exact h
      | _ => trivial
    | _ => trivial
  later e before event behind last h := by
    cases event with
    | step s =>
      cases s with
      | edit operation => cases operation <;> exact h
      | _ => trivial
    | _ => trivial

section

variable {fresh : FreshRun V σ} (hfresh : fresh.Obeys registrations)

include hfresh

theorem obeys_registrations_requestWith (request : Request) :
    (requestWith fresh request).Obeys registrations := by
  refine lasting_registrations.obeys_requestWith hfresh (fun _ _ => rfl) ?_ request
  intro operation hoperation hother e
  cases operation with
  | addLinks declared => exact absurd rfl (hother declared)
  | addLink | removeLinks | clear | restore => exact hoperation.elim
  | _ => trivial

theorem obeys_registrations_of_ordinary {command : Command V} (hordinary : command.Ordinary) :
    (carryOut fresh command).Obeys registrations := by
  cases command with
  | edit operation =>
    cases operation with
    | update batch => exact lasting_registrations.obeys_step fun _ => trivial
    | _ => exact hordinary.elim
  | execute id overrides => exact lasting_registrations.composed.executeWith hfresh id overrides
  | cascade id => exact lasting_registrations.composed.cascadeWith hfresh id
  | request request => exact obeys_registrations_requestWith hfresh request
  | _ => exact hordinary.elim

end

theorem governs_registrations {runner : Runner V σ} (hr : runner.Asks Command.Looks) :
    registrations.Governs runner Command.Looks where
  toLasting := lasting_registrations
  asks := hr
  command _ hfresh _ hlooks := lasting_registrations.composed.looks hfresh
    (fun _ _ => lasting_registrations.obeys_step fun _ => trivial)
    (fun _ _ _ => lasting_registrations.obeys_answered fun _ => trivial) hlooks
  beginRun _ _ := trivial
  failRun _ _ := trivial
  resume _ _ := trivial
  write _ _ _ _ _ _ _ _ _ _ _ := trivial

end Law

/-! ## 3. What a publication leaves -/

/-- A publication of the cell carries the tag, or a request finds it among the tags of the cell. -/
def Step.Lists (tag : Tag) (c : CellId) (e : Engine V) : Step V → Prop
  | .write context id output =>
    id = c ∧ tag ∈ output.tags ∧ ∃ next, e.write context id output = .ok next
  | .edit (.addLinks _) => ∃ cell, e.cells[c]? = some cell ∧ tag ∈ cell.outputTags
  | _ => False

/-- A batch deletes the cell or changes its persistent code. -/
def Step.Uproots (c : CellId) (e : Engine V) : Step V → Prop
  | .edit (.update batch) => e.Uproots batch c
  | _ => False

/-- As far as runners go that only look, tags are registered and forgotten in these ways only. -/
theorem Law.told_of_registrations {start : Engine V} {before behind : List (Event V)} {s : Step V}
    (h : Law.registrations start before (.step s) behind) (tag : Tag) (c : CellId) :
    (s.Registers tag c (start.after before) ↔ s.Lists tag c (start.after before)) ∧
      (s.Forgets c (start.after before) ↔ s.Uproots c (start.after before)) := by
  cases s with
  | edit operation =>
    cases operation with
    | addLinks declared =>
      obtain rfl : declared = (start.after before).declarations := h
      exact ⟨Engine.mem_declarations, Iff.rfl⟩
    | addLink | removeLinks | clear | restore => exact h.elim
    | _ => exact ⟨Iff.rfl, Iff.rfl⟩
  | _ => exact ⟨Iff.rfl, Iff.rfl⟩

/-- **What a publication leaves**, whenever one is taken in the course of the history: the tags of
the output resolve to the cell, and what is recorded for the cell besides are the tags that it was
found to list and that were not forgotten since. -/
theorem Runner.Asks.publication_tags {runner : Runner V σ} (hr : runner.Asks Command.Looks)
    {flags : RunFlags} {events : List (Event V)} {e : Engine V}
    (h : runner.History (fun _ command => command.Ordinary) (.withFlags flags) events e)
    {before later : List (Event V)} {context : Context} {c : CellId} {output : Output V}
    {next : Engine V} (hsplit : events = before ++ .step (.write context c output) :: later)
    (hwrite : ((Engine.withFlags flags).after before).write context c output = .ok next) :
    (∀ tag ∈ output.tags, tag ∈ next.links.tagsOf c ∧ next.links.current tag = .ok c ∧
      ∀ requester, requester ≠ c → next.links.external tag requester = .ok c) ∧
    ∀ tag, tag ∈ next.links.tagsOf c ↔
      tag ∈ output.tags ∨ Since (Step.Lists tag c) (Step.Uproots c) (.withFlags flags) before := by
  have hlaw : Law.registrations.Holds (.withFlags flags) events :=
    h.obeys Law.lasting_registrations fun e command limit s t _ _ hordinary ht =>
      (Law.obeys_registrations_of_ordinary ((Law.governs_registrations hr).runFresh limit)
        hordinary e s t ht).2
  obtain ⟨cell, -, rfl⟩ := Engine.eq_publish_of_write hwrite
  refine ⟨fun tag htag => ⟨Engine.mem_tagsOf_publish.2 (.inl ⟨htag, rfl⟩),
    Engine.resolves_publish htag _ c cell⟩, fun tag => ?_⟩
  rw [Engine.mem_tagsOf_publish, Engine.mem_tagsOf_after rfl, and_iff_left rfl]
  exact or_congr_right (hlaw.since_iff (fun _ s _ hs => Law.told_of_registrations hs tag c)
    before _ hsplit)

/-! ## 4. A declared tag that the output does not carry -/

/-- An output that carries the tag `y`. -/
def heralded : Output Unit := .tagged (.named [(⟨"y"⟩, ())])

def herald : Runner Unit Unit := fun _ _ state => .done state (.ok heralded)

theorem herald_looks : herald.Asks Command.Looks := fun _ state => .done state _

/-- A cell that declares the tag `x` is run. -/
def declaring : List (Command Unit) :=
  [.request ⟨⟨0⟩, (∅ : Batch).insert ⟨0⟩ ((Revision.ofCode "code").withOutputTag ⟨"x"⟩), {}⟩]

theorem declaring_ordinary : ∀ command ∈ declaring, command.Ordinary := by
  intro command hcommand
  rw [List.mem_singleton.1 hcommand]
  trivial

/-- What an event offers for publication. -/
def Event.offer? : Event V → Option (Context × CellId × Output V)
  | .step (.write context id output) => some (context, id, output)
  | _ => none

theorem Event.split_of_offer {events : List (Event V)} {n : Nat} {context : Context} {id : CellId}
    {output : Output V} (h : events[n]?.bind Event.offer? = some (context, id, output)) :
    events = events.take n ++ .step (.write context id output) :: events.drop (n + 1) := by
  obtain ⟨event, hevent, hoffer⟩ := Option.bind_eq_some_iff.1 h
  obtain ⟨hn, rfl⟩ := List.getElem?_eq_some_iff.1 hevent
  have hwrite : events[n] = .step (.write context id output) := by
    revert hoffer
    cases events[n] with
    | step s => cases s <;> simp [Event.offer?]
    | _ => simp [Event.offer?]
  rw [← hwrite, ← List.drop_eq_getElem_cons, List.take_append_drop]

/-- The cell publishes, and `x` is recorded for it as well. -/
theorem herald_publishes : ∃ events e before later next,
    herald.session 1 declaring (.withFlags {}) () = some (events, e) ∧
    events = before ++ .step (.write ⟨⟨0⟩⟩ ⟨0⟩ heralded) :: later ∧
    ((Engine.withFlags {}).after before).write ⟨⟨0⟩⟩ ⟨0⟩ heralded = .ok next ∧
    ⟨"x"⟩ ∉ heralded.tags ∧ ⟨"x"⟩ ∈ next.links.tagsOf ⟨0⟩ ∧ next.links.current ⟨"x"⟩ = .ok ⟨0⟩ := by
  obtain ⟨⟨events, e⟩, hsession, hfound⟩ :
      ∃ found, herald.session 1 declaring (.withFlags {}) () = some found ∧
      (decide (found.1[5]?.bind Event.offer? = some (⟨⟨0⟩⟩, ⟨0⟩, heralded)) &&
        (((Engine.withFlags {}).after (found.1.take 5)).write ⟨⟨0⟩⟩ ⟨0⟩
            heralded).toOption.any fun next =>
          decide (⟨"x"⟩ ∈ next.links.tagsOf ⟨0⟩) &&
            decide (next.links.current ⟨"x"⟩ = .ok ⟨0⟩)) = true :=
    (Option.any_eq_true _ _).1 (by decide +kernel)
  simp only [Bool.and_eq_true, decide_eq_true_eq, Option.any_eq_true] at hfound
  obtain ⟨hoffer, next, hnext, hrecorded, hcurrent⟩ := hfound
  refine ⟨events, e, events.take 5, events.drop 6, next, hsession, Event.split_of_offer hoffer,
    ?_, by decide +kernel, hrecorded, hcurrent⟩
  revert hnext
  cases ((Engine.withFlags {}).after (events.take 5)).write ⟨⟨0⟩⟩ ⟨0⟩ heralded with
  | error fault => exact nofun
  | ok taken => exact fun h => congrArg Except.ok (Option.some.inj h)

/-- The tag of the output resolves to the cell, and the other one was listed by the request. -/
theorem herald_publication_tags : ∃ events e before later next,
    herald.session 1 declaring (.withFlags {}) () = some (events, e) ∧
    events = before ++ .step (.write ⟨⟨0⟩⟩ ⟨0⟩ heralded) :: later ∧
    ((Engine.withFlags {}).after before).write ⟨⟨0⟩⟩ ⟨0⟩ heralded = .ok next ∧
    next.links.current ⟨"y"⟩ = .ok ⟨0⟩ ∧ next.links.external ⟨"y"⟩ ⟨1⟩ = .ok ⟨0⟩ ∧
    Since (Step.Lists ⟨"x"⟩ ⟨0⟩) (Step.Uproots ⟨0⟩) (.withFlags {}) before := by
  obtain ⟨events, e, before, later, next, hsession, hsplit, hwrite, hnot, hrecorded, -⟩ :=
    herald_publishes
  have hstart : herald.History (fun _ command => command.Ordinary) (.withFlags {}) []
    (.withFlags {}) := .start
  have hhistory := hstart.append_session
    (fun command hcommand _ => declaring_ordinary command hcommand) hsession
  obtain ⟨hcarried, hlisted⟩ := herald_looks.publication_tags hhistory hsplit hwrite
  obtain ⟨-, hcurrent, hexternal⟩ := hcarried ⟨"y"⟩ (by decide +kernel)
  exact ⟨events, e, before, later, next, hsession, hsplit, hwrite, hcurrent,
    hexternal ⟨1⟩ (by decide), ((hlisted ⟨"x"⟩).1 hrecorded).resolve_left hnot⟩

/-- **A declared tag stays**: it resolves to the cell right after the cell has
published an output without it. -/
theorem declared_tag_stays : herald.Asks Command.Looks ∧ (∀ command ∈ declaring, command.Ordinary) ∧
    ∃ events e before later next, herald.session 1 declaring (.withFlags {}) () = some (events, e) ∧
      events = before ++ .step (.write ⟨⟨0⟩⟩ ⟨0⟩ heralded) :: later ∧
      ((Engine.withFlags {}).after before).write ⟨⟨0⟩⟩ ⟨0⟩ heralded = .ok next ∧
      (¬ ∀ tag, tag ∈ next.links.tagsOf ⟨0⟩ ↔ tag ∈ heralded.tags) ∧
        next.links.current ⟨"x"⟩ = .ok ⟨0⟩ := by
  obtain ⟨events, e, before, later, next, hsession, hsplit, hwrite, hnot, hrecorded, hcurrent⟩ :=
    herald_publishes
  exact ⟨herald_looks, declaring_ordinary, events, e, before, later, next, hsession, hsplit, hwrite,
    fun hsame => hnot ((hsame ⟨"x"⟩).1 hrecorded), hcurrent⟩

end Notebook
