import Timekeeping.Proofs.Run.Disabling
import Timekeeping.Proofs.Run.Firings

/-!
What a firing leaves, however it ends. One that returns, because its callback came back or
because its panic was caught, has put the context of its scheduler back and has made a
repeating timer live again. A panic that its scheduler does not catch goes past the end of
the firing, and then neither is done: the context is the callback's, and the timer waits
triggered, so no pass fires it again.
-/
namespace Timekeeping

open Act

/-- A firing has returned in the run `r'`. The context of its scheduler is the one that it had in the
run `r`. A timer that repeats on the clock is live, if its callback has not touched it. -/
structure Restored (s : SchedulerId) (t : TimerId) (r r' : Run) : Prop where
  context : (r'.world.scheduler s).context = (r.world.scheduler s).context
  live : ∃ last ms first, r'.journal = last :: (ms ++ first :: r.journal) ∧
    first.event.Starts t ∧ ((∀ m ∈ ms, ¬ m.event.Touches m.world t) →
      ∀ {time interval}, (r.world.timer t).trigger = some (.onClock time) →
        (r.world.timer t).interval = some interval →
        r'.world.Ready s (t, r.world.nextTrigger s (r.world.timer t) interval (.onClock time)))

/-- A panic has left a firing. Its scheduler does not catch panics. A timer that repeats on the clock
waits triggered, if its callback has not touched it. -/
structure Abandoned (s : SchedulerId) (t : TimerId) (r r' : Run) : Prop where
  uncaught : (r.world.scheduler s).config.catchPanics = false
  disabled : ∃ ms first, r'.journal = ms ++ first :: r.journal ∧
    first.event.Starts t ∧ ((∀ m ∈ ms, ¬ m.event.Touches m.world t) →
      ∀ {time interval}, (r.world.timer t).trigger = some (.onClock time) →
        (r.world.timer t).interval = some interval → r'.world.Disabled s t)

/-- How the firing of a timer ends, unless a bound is exhausted before. -/
structure FiringExits (call : Caller) (s : SchedulerId) (t : TimerId) (r : Run) : Prop where
  returned : ∀ {outcome r'}, fire call s t r = .ok outcome r' →
    outcome ≠ .skipped ∧ Restored s t r r'
  panicked : ∀ {payload r'}, fire call s t r = .error (.panic payload) r' → Abandoned s t r r'

variable {call : Caller} {s : SchedulerId} {t : TimerId} {w : World} {r back : Run}
  {start : World.Started} {ms : List Moment}

/-- A callback that is shielded does not leave a panic. -/
theorem catches_of_shield {catching : Bool} {a : Act Ending} {payload : Payload}
    (h : shield catching a r = .error (.panic payload) back) : catching = false := by
  cases catching with
  | false => rfl
  | true =>
    have hattempt : attempt a r = .error (.panic payload) back := h
    unfold attempt at hattempt
    cases ha : a r with
    | ok ending r' =>
      rw [ha] at hattempt
      cases hattempt
    | error i r' => cases i <;> (rw [ha] at hattempt; cases hattempt)

theorem Invokes.exists_first (h : Invokes s t r start w ms back) :
    ∃ first, back.journal = ms ++ first :: r.journal ∧ first.event.Starts t :=
  ⟨_, h.journal, rfl⟩

theorem Invokes.restored (h : Invokes s t r start w ms back) :
    Restored s t r (back.settling s t start) := by
  obtain ⟨first, hjournal, hstarts⟩ := h.exists_first
  refine ⟨?_, ⟨.settled s t start.again, back.world.settle s t start⟩, ms, first, ?_, hstarts, ?_⟩
  · have hcontext := World.context_settle back.world s t start
    exact hcontext.trans (World.context_of_take h.take)
  · change _ :: back.journal = _
    rw [hjournal]
  · intro hquiet time interval htrigger hinterval
    exact (h.again hquiet htrigger hinterval).1

theorem Invokes.abandoned (h : Invokes s t r start w ms back)
    (huncaught : (w.scheduler s).config.catchPanics = false) : Abandoned s t r back := by
  obtain ⟨first, hjournal, hstarts⟩ := h.exists_first
  refine ⟨?_, ms, first, hjournal, hstarts, ?_⟩
  · rw [← (World.SameFrame.take h.take).config]
    exact huncaught
  · intro hquiet time interval htrigger hinterval
    obtain ⟨hrow, hwaits⟩ := h.held hquiet htrigger hinterval
    refine ⟨?_, World.mem_active_items.mpr ⟨_, hwaits⟩⟩
    rw [hrow]

/-- A firing of a timer that waits puts everything back when it returns. When a panic leaves it, its
scheduler is one that does not catch panics. -/
theorem World.Sound.fire_exits (hr : r.world.Sound) (ht : t ∈ (r.world.scheduler s).items)
    (behaviour : Behaviour) (depth : Nat) : FiringExits (caller behaviour depth) s t r := by
  obtain ⟨kind, trigger, hmem⟩ := mem_items.mp ht
  obtain ⟨start, w, htake⟩ := hr.exists_take_eq_started hmem
  obtain ⟨ms, hinvokes⟩ := invokes_of_take (keeps_continues behaviour depth) htake
  rw [← after_shield _ (w.scheduler s).config.catchPanics] at hinvokes
  have hfire : fire (caller behaviour depth) s t r = _ := fire_of_take htake
  unfold after at hinvokes
  cases hshield : shield (w.scheduler s).config.catchPanics
      (caller behaviour depth s start.callback (w.calls.get start.callback.key) start.args)
      (r.starting s t start w) with
  | ok ending back =>
    rw [hshield] at hinvokes hfire
    constructor
    · intro outcome r' h
      cases hfire.symm.trans h
      exact ⟨FiringOutcome.ofEnding_ne_skipped t start.callback ending, hinvokes.restored⟩
    · intro payload r' h
      cases hfire.symm.trans h
  | error i back =>
    rw [hshield] at hinvokes hfire
    constructor
    · intro outcome r' h
      cases hfire.symm.trans h
    · intro payload r' h
      cases hfire.symm.trans h
      exact hinvokes.abandoned (catches_of_shield hshield)

section Unlucky

/-- One callback changes the context of the second scheduler and panics. The other one fires the timer
of the first there. -/
def unlucky : Behaviour := fun key _ _ _ =>
  if key = 0 then
    .perform none (fun _ => .setContext 1 "dir" (.text "tmp")) fun _ => .panic (.literal "no luck")
  else .perform none (fun _ => .fire 1 ⟨0⟩) fun _ => .finish .succeeded

/-- A run to look at. Two timers that repeat every second wait, one in a scheduler that does not catch
panics and one in a scheduler that does. -/
def unluckyRun : Run :=
  performAll unlucky 2
    [.schedule 1 (.instant (.ofSeconds 1)) (some (.ofSeconds 1)) ⟨0, none⟩ [],
      .schedule 0 (.instant (.ofSeconds 1)) (some (.ofSeconds 1)) ⟨1, none⟩ [],
      .changeHost (.setNow (.ofSeconds 1))]
    { world := {
        host := { now := .epoch }
        schedulers := Table.set {} 1 (.ofConfig { catchPanics := false } 0) } }

theorem reachable_unluckyRun : Reachable unluckyRun := by
  refine (Reachable.start ⟨rfl, fun _ => rfl, fun s => ?_, fun s => ?_⟩).performAll _ _ _
  · unfold World.scheduler
    rw [Table.get_set]
    split <;> rfl
  · unfold World.scheduler
    rw [Table.get_set]
    split <;> rfl

attribute [irreducible] unluckyRun

/-- An action that is interrupted, but not when its panic is caught, leaves a panic. -/
theorem exists_panic {α : Type} {a : Act α} (h : returns a r = false)
    (hcaught : returns (caught a) r = true) :
    ∃ payload r', a r = .error (.panic payload) r' := by
  unfold returns at h hcaught
  unfold caught at hcaught
  cases ha : a r with
  | ok x r' =>
    rw [ha] at h
    cases h
  | error i r' =>
    cases i with
    | panic payload => exact ⟨payload, r', rfl⟩
    | exhausted =>
      rw [ha] at hcaught
      cases hcaught

/-- The scheduler that catches panics takes the inner one for a failure, and its firing returns. -/
theorem fire_exits_unluckyRun :
    (∃ outcome r', fire (caller unlucky 2) 0 ⟨1⟩ unluckyRun = .ok outcome r' ∧
      Restored 0 ⟨1⟩ unluckyRun r') ∧
    ∃ payload r', fire (caller unlucky 2) 1 ⟨0⟩ unluckyRun = .error (.panic payload) r' ∧
      Abandoned 1 ⟨0⟩ unluckyRun r' := by
  have hsound := reachable_unluckyRun.sound.1
  have houter := hsound.fire_exits (s := 0) (t := ⟨1⟩) (by decide +kernel) unlucky 2
  have hinner := hsound.fire_exits (s := 1) (t := ⟨0⟩) (by decide +kernel) unlucky 2
  constructor
  · have hreturns : returns (fire (caller unlucky 2) 0 ⟨1⟩) unluckyRun = true := by decide +kernel
    unfold returns at hreturns
    cases hfire : fire (caller unlucky 2) 0 ⟨1⟩ unluckyRun with
    | ok outcome r' => exact ⟨outcome, r', rfl, (houter.returned hfire).2⟩
    | error i r' =>
      rw [hfire] at hreturns
      cases hreturns
  · obtain ⟨payload, r', hfire⟩ := exists_panic (a := fire (caller unlucky 2) 1 ⟨0⟩)
      (r := unluckyRun) (by decide +kernel) (by decide +kernel)
    exact ⟨payload, r', hfire, hinner.panicked hfire⟩

/-- The outer firing returns. What the inner callback has put into its scheduler's context stays
there, and its timer is triggered, though nothing but its start touched it. -/
theorem unluckyRun_leaves_changes :
    returns (execute unlucky 2 (.fire 0 ⟨1⟩)) unluckyRun = true ∧
      (unluckyRun.world.scheduler 1).context.isEmpty = true ∧
      ((after (execute unlucky 2 (.fire 0 ⟨1⟩)) unluckyRun).world.scheduler 1).context.isEmpty =
        false ∧
      unluckyRun.world.Ready 1 (⟨0⟩, .onClock (.ofSeconds 1)) ∧
      (after (execute unlucky 2 (.fire 0 ⟨1⟩)) unluckyRun).world.Disabled 1 ⟨0⟩ ∧
      ∃ since, (after (execute unlucky 2 (.fire 0 ⟨1⟩)) unluckyRun).journal =
          since ++ unluckyRun.journal ∧
        ∀ m ∈ since, m.event.Touches m.world ⟨0⟩ → m.event.Starts ⟨0⟩ := by
  refine ⟨by decide +kernel, by decide +kernel, by decide +kernel, by decide +kernel,
    by decide +kernel, ?_⟩
  obtain ⟨since, hext⟩ := (Run.traced_execute unlucky 2 (.fire 0 ⟨1⟩) unluckyRun).continues
  refine ⟨since, hext.journal, ?_⟩
  have hlength : (after (execute unlucky 2 (.fire 0 ⟨1⟩)) unluckyRun).journal.length =
      4 + unluckyRun.journal.length := by decide +kernel
  have hsince : since =
      (after (execute unlucky 2 (.fire 0 ⟨1⟩)) unluckyRun).journal.take 4 := by
    rw [hext.journal, List.length_append] at hlength
    rw [hext.journal, List.take_left' (Nat.add_right_cancel hlength)]
  rw [hsince]
  decide +kernel

end Unlucky

end Timekeeping
