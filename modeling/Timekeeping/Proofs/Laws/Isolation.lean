import Timekeeping.Proofs.Run.Likeness
import Timekeeping.Proofs.Run.Observing
import Timekeeping.Proofs.Run.Reachability
import Timekeeping.Proofs.Run.Tallies

/-!
Failures stay where they are. In two runs from the same state the same operations are
performed, and callbacks do the same but may come back, fail or panic in one run
otherwise than in the other. If panics are taken for failures, the runs cannot be told
apart but by the outcomes of firings.
-/
namespace Timekeeping

open Act

/-- The report of a pass that ends. -/
def Event.report? : Event → Option (Nat × SchedulerId × LoopId × PassReport)
  | passEnded pass s loop report => some (pass, s, loop, report)
  | _ => none

/-- The operations lead to the same world by like moments, and they answer alike. So the same callbacks
start in the same order, and all passes report the same. -/
structure Isolated (behaviour behaviour' : Behaviour) (depth : Nat) (operations : List Operation)
    (r : Run) : Prop where
  world : (performAll behaviour' depth operations r).world =
    (performAll behaviour depth operations r).world
  moments : List.Forall₂ Moment.Alike (performAll behaviour depth operations r).journal
    (performAll behaviour' depth operations r).journal
  starts : (performAll behaviour' depth operations r).journal.filterMap (fun m => m.event.start?) =
    (performAll behaviour depth operations r).journal.filterMap fun m => m.event.start?
  reports : (performAll behaviour' depth operations r).journal.filterMap (fun m => m.event.report?) =
    (performAll behaviour depth operations r).journal.filterMap fun m => m.event.report?
  answers : ∀ {before operation after}, operations = before ++ operation :: after →
    Lifts Reply.Alike (answer (execute behaviour depth operation) (performAll behaviour depth before r))
      (answer (execute behaviour' depth operation) (performAll behaviour' depth before r))

variable {behaviour behaviour' : Behaviour} {depth : Nat} {operations : List Operation} {r r' : Run}
  {since : List Moment}

theorem Event.Alike.start?_eq {e e' : Event} (h : e.Alike e') : e'.start? = e.start? := by
  cases h with
  | same e => rfl
  | stepped key number label hreply => rfl

theorem Event.Alike.report?_eq {e e' : Event} (h : e.Alike e') : e'.report? = e.report? := by
  cases h with
  | same e => rfl
  | stepped key number label hreply => rfl

/-- What like events have in common can be read off like journals. -/
theorem filterMap_eq_of_alike {α : Type} {f : Event → Option α} {ms ms' : List Moment}
    (h : List.Forall₂ Moment.Alike ms ms') (hf : ∀ {e e' : Event}, e.Alike e' → f e' = f e) :
    ms'.filterMap (fun m => f m.event) = ms.filterMap fun m => f m.event := by
  induction h with
  | nil => rfl
  | cons hm _ ih => rw [List.filterMap_cons, List.filterMap_cons, hf hm.event, ih]

theorem grows_performAll (behaviour : Behaviour) (depth : Nat) (operations : List Operation)
    (r : Run) : r.Grows (performAll behaviour depth operations r) := by
  obtain ⟨since, hext⟩ := Run.continues_performAll behaviour depth operations r
  exact ⟨since, hext.journal⟩

theorem performAll_append (behaviour : Behaviour) (depth : Nat) (before after : List Operation)
    (r : Run) : performAll behaviour depth (before ++ after) r =
      performAll behaviour depth after (performAll behaviour depth before r) :=
  List.foldl_append

/-- Settings of schedulers do not change, so it can be said beforehand which callbacks are caught. -/
theorem caught_performAll
    (hjournal : (performAll behaviour depth operations r).journal = since ++ r.journal)
    (hcatch : ∀ m ∈ since, ∀ start ∈ m.event.start?,
      (r.world.scheduler start.1).config.catchPanics = true) :
    r.Caught (performAll behaviour depth operations r) := by
  intro since' hjournal' m hm start hstart
  obtain rfl : since' = since := List.append_cancel_right (hjournal'.symm.trans hjournal)
  obtain ⟨since₁, hext⟩ := Run.continues_performAll behaviour depth operations r
  obtain rfl : since₁ = since' := List.append_cancel_right (hext.journal.symm.trans hjournal)
  obtain ⟨later, earlier, rfl⟩ := List.append_of_mem hm
  obtain ⟨w, hpath, -⟩ := hext.path.split
  have hworld : m.world = w := by
    cases hpath
    rfl
  rw [hworld, hpath.config_eq]
  exact hcatch m hm start hstart

/-- Twins stay twins while the same operations are performed in both. -/
theorem Behaviour.Alike.twin (h : behaviour.Alike behaviour') (htwin : r.Twin r')
    (hcaught : r.Caught (performAll behaviour depth operations r)) :
    (performAll behaviour depth operations r).Twin
      (performAll behaviour' depth operations r') := by
  induction operations generalizing r r' with
  | nil => exact htwin
  | cons operation rest ih =>
    have hfirst := h.mirrors_execute depth operation
    have hgrows := grows_performAll behaviour depth rest (after (execute behaviour depth operation) r)
    refine ih (hfirst.meets htwin (hcaught.left hgrows)).1 ?_
    exact hcaught.right (hfirst.grows r)

/-- What callbacks come to has no influence on anything else. -/
theorem Behaviour.Alike.isolated (h : behaviour.Alike behaviour')
    (hjournal : (performAll behaviour depth operations r).journal = since ++ r.journal)
    (hcatch : ∀ m ∈ since, ∀ start ∈ m.event.start?,
      (r.world.scheduler start.1).config.catchPanics = true) :
    Isolated behaviour behaviour' depth operations r := by
  have hcaught := caught_performAll hjournal hcatch
  have htwin := h.twin (.refl r) hcaught
  refine ⟨htwin.world, htwin.journal, filterMap_eq_of_alike htwin.journal Event.Alike.start?_eq,
    filterMap_eq_of_alike htwin.journal Event.Alike.report?_eq, ?_⟩
  rintro before operation after rfl
  rw [performAll_append] at hcaught
  have hbefore := hcaught.left (grows_performAll behaviour depth (operation :: after) _)
  have hafter := hcaught.right (grows_performAll behaviour depth before r)
  refine ((h.mirrors_execute depth operation).meets (h.twin (.refl r) hbefore) ?_).2
  exact hafter.left (grows_performAll behaviour depth after _)

section Luckless

/-- The first callback fires another timer, and the second one leaves a trace. Without luck the first
one fails, and the second one panics. -/
def luck (lucky : Bool) : Behaviour := fun key _ s _ =>
  if key = 0 then
    .perform (some "fire") (fun _ => .fire s ⟨1⟩) fun _ =>
      .finish (if lucky then .succeeded else .failed "no luck")
  else
    .perform none (fun _ => .setContext s "seen" (.bool true)) fun _ =>
      if lucky then .finish .succeeded else .panic (.literal "no luck")

theorem alike_luck : (luck false).Alike (luck true) := by
  intro key number s args
  unfold luck
  split
  · exact .perform _ _ fun _ _ _ => .finishes _ _
  · exact .perform _ _ fun _ _ _ => .recovers _ _

/-- A repeating timer and another one, and two passes after both are due. -/
def luckOperations : List Operation :=
  [.schedule 0 (.instant (.ofSeconds 1)) (some (.ofSeconds 1)) ⟨0, none⟩ [],
    .schedule 0 (.instant (.ofSeconds 2)) none ⟨1, none⟩ [],
    .changeHost (.setNow (.ofSeconds 10)),
    .drain 0 (.named "main"),
    .drain 0 (.named "main")]

/-- Three callbacks start, one of them within another, and without luck all three fail. -/
theorem isolated_luck : Isolated (luck false) (luck true) 2 luckOperations { world := emptyWorld } ∧
    ((performAll (luck false) 2 luckOperations { world := emptyWorld }).journal.filterMap
      fun m => m.event.start?.map fun start => start.2.1) = [⟨0⟩, ⟨1⟩, ⟨0⟩] := by
  obtain ⟨since, hjournal⟩ := grows_performAll (luck false) 2 luckOperations { world := emptyWorld }
  have hcatch : ∀ m ∈ (performAll (luck false) 2 luckOperations { world := emptyWorld }).journal,
      ∀ start ∈ m.event.start?, (emptyWorld.scheduler start.1).config.catchPanics = true := by
    decide +kernel
  refine ⟨alike_luck.isolated hjournal fun m hm => hcatch m ?_, by decide +kernel⟩
  rw [hjournal]
  exact List.mem_append_left _ hm

end Luckless

end Timekeeping
