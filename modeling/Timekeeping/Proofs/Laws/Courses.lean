import Mathlib.Data.List.Nodup
import Timekeeping.Proofs.Laws.Cancellation
import Timekeeping.Proofs.Run.Brackets
import Timekeeping.Proofs.Run.Firings
import Timekeeping.Proofs.Run.Sweeps

/-!
The course of one firing from its start to its end. The timer has left its queue and, if it
repeats, is back under its next trigger before its callback is called, so whatever the callback
does finds queues and rows in order. A callback that does not turn to the timer leaves it
there, and what is left to do when it has come back is to make a timer of the active queue live.
-/
namespace Timekeeping

open Act

/-- The rows agree in how the timer repeats and in what it calls. -/
structure Timer.SameWork (r r' : Timer) : Prop where
  interval : r'.interval = r.interval
  aligned : r'.aligned = r.aligned
  callback : r'.callback = r.callback
  args : r'.args = r.args

theorem Timer.SameWork.trans {r₁ r₂ r₃ : Timer} (h : r₁.SameWork r₂) (h' : r₂.SameWork r₃) :
    r₁.SameWork r₃ :=
  ⟨h'.interval.trans h.interval, h'.aligned.trans h.aligned, h'.callback.trans h.callback,
    h'.args.trans h.args⟩

namespace World

/-- The timer waits under the trigger in one place: once in this scheduler and in no other one. -/
structure WaitsOnce (w : World) (s : SchedulerId) (t : TimerId) (trigger : Trigger) : Prop where
  waits : (t, trigger) ∈ w.waiting s trigger.kind
  queued : (w.timer t).queued = some trigger.kind
  trigger : (w.timer t).trigger = some trigger
  once : (w.scheduler s).items.count t = 1
  nowhere_else : ∀ s', s' ≠ s → t ∉ (w.scheduler s').items

/-- What has become in the world `w'` of a timer that the scheduler has fired in the world `w`. A timer
of the active queue that repeats is live if the firing is `settled`. -/
structure Refiled (s : SchedulerId) (t : TimerId) (settled : Bool) (w w' : World) : Prop where
  once : (w.timer t).interval = none → w'.Lacks t ∧ (w'.timer t).triggered = true
  clock : ∀ {time interval}, (w.timer t).trigger = some (.onClock time) →
    (w.timer t).interval = some interval →
    w'.WaitsOnce s t (.onClock (followingRepeat w.host.now time interval
      (w.scheduler s).config.maxRepeats (w.timer t).aligned)) ∧
    (w'.timer t).triggered = !settled
  idle : ∀ {delay interval}, (w.timer t).trigger = some (.afterIdle delay) →
    (w.timer t).interval = some interval →
    w'.WaitsOnce s t (.afterIdle delay) ∧ (w'.timer t).triggered = true
  work : (w.timer t).SameWork (w'.timer t)

end World

/-- The course of a firing: the timer's callback starts in the world that `take` leaves, and the firing
returns if the callback comes back, or if it panics and its scheduler catches that. Between the start
and the end there are the moments of the callback and of all that is nested in it. -/
structure Course (call : Caller) (s : SchedulerId) (t : TimerId) (r : Run) (start : World.Started)
    (w : World) : Prop where
  take : r.world.take s t = .started start w
  callback : (r.world.timer t).callback = some start.callback
  args : (r.world.timer t).args = start.args
  begins : World.Refiled s t false r.world (r.starting s t start w).world
  returns : returns (fire call s t) r = returns
    (shield (r.world.scheduler s).config.catchPanics
      (call s start.callback (w.calls.get start.callback.key) start.args)) (r.starting s t start w)
  returned : ∀ {outcome r'}, fire call s t r = .ok outcome r' →
    outcome ≠ .skipped ∧ (r'.world.scheduler s).context = (r.world.scheduler s).context ∧
      ∃ ms, r'.journal =
          ⟨.settled s t start.again, r'.world⟩ :: (ms ++ (r.starting s t start w).journal) ∧
        ((∀ m ∈ ms, ¬ m.event.Disturbs t) → World.Refiled s t true r.world r'.world)

namespace World

variable {w w' : World} {s : SchedulerId} {t : TimerId} {kind : QueueKind} {trigger : Trigger}
  {start : Started}

theorem Sound.waitsOnce (h : w.Sound) (ht : (t, trigger) ∈ w.waiting s kind) :
    w.WaitsOnce s t trigger := by
  obtain rfl : trigger.kind = kind := Scheduler.kind_of_mem_waiting ht
  have hitem : t ∈ (w.scheduler s).items := mem_items.mpr ⟨_, trigger, ht⟩
  exact {
    waits := ht
    queued := (h.entry ht).1
    trigger := (h.entry ht).2
    once := List.count_eq_one_of_mem (h.nodup_items s) hitem
    nowhere_else := fun s' hne hmem => h.disjoint_items hne hmem hitem }

/-- A timer that does not repeat is triggered and in no queue when it is fired. -/
theorem timer_withdraw_of_once (s : SchedulerId) (kind : QueueKind)
    (honce : (w.timer t).interval = none) :
    (w.withdraw s t kind).timer t = { w.timer t with triggered := true, queued := none } := by
  simp [withdraw, requeue, honce, timer_dequeue]

theorem sameWork_withdraw (w : World) (s : SchedulerId) (t : TimerId) (kind : QueueKind) :
    (w.timer t).SameWork ((w.withdraw s t kind).timer t) := by
  unfold withdraw
  dsimp only
  obtain heq | ⟨next, heq⟩ := requeue_cases ((w.dequeue s t kind).setTimer t
    { (w.dequeue s t kind).timer t with triggered := true }) s t (w.timer t)
  · rw [heq]
    constructor <;> simp [timer_dequeue]
  · rw [heq]
    constructor <;> simp [timer_enqueue, timer_dequeue]

/-- Before its callback is called, the timer has left its queue and is back if it repeats. -/
theorem Sound.refiled_of_withdraw (hw' : w'.Sound) (kind : QueueKind)
    (hsame : Unchanged (w.withdraw s t kind) w' t) : Refiled s t false w w' := by
  have hback : ∀ {trigger interval}, (w.timer t).trigger = some trigger →
      (w.timer t).interval = some interval →
      w'.WaitsOnce s t (w.nextTrigger s (w.timer t) interval trigger) ∧
        (w'.timer t).triggered = true := by
    intro trigger interval htrigger hinterval
    have hwaits := mem_waiting_withdraw_of_repeats (s := s) kind hinterval htrigger
    refine ⟨hw'.waitsOnce ((hsame.waiting _ _ _).mpr hwaits), ?_⟩
    rw [hsame.timer, timer_withdraw_of_repeats kind hinterval htrigger]
  refine ⟨fun honce => ?_, hback, hback, hsame.timer ▸ sameWork_withdraw w s t kind⟩
  rw [hw'.lacks_iff, hsame.timer, timer_withdraw_of_once s kind honce]
  exact ⟨rfl, rfl⟩

theorem WaitsOnce.settle (h : w'.WaitsOnce s t trigger) (hw' : w'.Sound) (start : Started) :
    (w'.settle s t start).WaitsOnce s t trigger := by
  have hwaits : (t, trigger) ∈ (w'.settle s t start).waiting s trigger.kind := by
    rw [waiting_settle]
    exact h.waits
  exact (hw'.settle s t start).waitsOnce hwaits

theorem sameWork_settle (w : World) (s : SchedulerId) (t : TimerId) (start : Started) :
    (w.timer t).SameWork ((w.settle s t start).timer t) := by
  obtain heq | heq := timer_settle w s t start
  · rw [heq]
    exact ⟨rfl, rfl, rfl, rfl⟩
  · rw [heq]
    exact ⟨rfl, rfl, rfl, rfl⟩

/-- The end of the firing makes the timer live if it is in the active queue again. -/
theorem Refiled.settle (h : Refiled s t false w w') (hw' : w'.Sound)
    (hagain : start.again = ((w.timer t).interval.isSome &&
      ((w.timer t).trigger.map Trigger.kind) = some .active)) :
    Refiled s t true w (w'.settle s t start) := by
  refine ⟨fun honce => ?_, fun {time interval} htime hinterval => ?_,
    fun {delay interval} hdelay hinterval => ?_, h.work.trans (sameWork_settle w' s t start)⟩
  · obtain ⟨hlacks, htriggered⟩ := h.once honce
    have hrow : (w'.settle s t start).timer t = w'.timer t :=
      timer_settle_of_not_active s start (by simp [hlacks.1])
    rw [(hw'.settle s t start).lacks_iff, hrow]
    exact ⟨hlacks.1, htriggered⟩
  · obtain ⟨hwaits, -⟩ := h.clock htime hinterval
    refine ⟨hwaits.settle hw' start, ?_⟩
    rw [timer_settle_of_again (by simp [hagain, htime, hinterval, Trigger.kind]) hwaits.queued]
    rfl
  · obtain ⟨hwaits, htriggered⟩ := h.idle hdelay hinterval
    refine ⟨hwaits.settle hw' start, ?_⟩
    rw [timer_settle_of_not_active s start (by simp [hwaits.queued, Trigger.kind])]
    exact htriggered

end World

variable {call : Caller} {s : SchedulerId} {t : TimerId} {w : World} {r back : Run}
  {start : World.Started} {ms : List Moment}

/-- Nothing but its withdrawal has happened to the timer when its callback starts. -/
theorem unchanged_starting (htake : r.world.take s t = .started start w) :
    World.Unchanged (r.world.withdraw s t start.kind) (r.starting s t start w).world t := by
  have htaken : World.Unchanged (r.world.withdraw s t start.kind) w t := by
    rw [(World.begun_of_take htake).world]
    exact .setScheduler rfl rfl
  exact htaken.trans (.congr rfl (fun _ => rfl) (fun _ => rfl))

theorem refiled_starting (hr : r.world.Sound) (htake : r.world.take s t = .started start w) :
    World.Refiled s t false r.world (r.starting s t start w).world :=
  ((World.Step.started htake).sound hr).refiled_of_withdraw start.kind (unchanged_starting htake)

/-- What the callback leaves of a timer that it does not turn to is what it has found. -/
theorem Invokes.ends (h : Invokes s t r start w ms back) (hr : r.world.Sound)
    (hquiet : ∀ m ∈ ms, ¬ m.event.Touches m.world t) :
    World.Refiled s t true r.world (back.settling s t start).world := by
  have hback := (h.path.sound ((World.Step.started h.take).sound hr)).1
  have hsame := (unchanged_starting h.take).trans (h.path.unchanged hquiet)
  exact (hback.refiled_of_withdraw start.kind hsame).settle hback (World.again_of_take h.take)

theorem returns_fire (htake : r.world.take s t = .started start w) :
    returns (fire call s t) r = returns
      (shield (r.world.scheduler s).config.catchPanics
        (call s start.callback (w.calls.get start.callback.key) start.args))
      (r.starting s t start w) := by
  rw [← (World.SameFrame.take htake).config]
  unfold returns
  rw [fire_of_take htake]
  cases shield (w.scheduler s).config.catchPanics
    (call s start.callback (w.calls.get start.callback.key) start.args)
    (r.starting s t start w) <;> rfl

/-- A firing that returns has settled its timer after what its callback did. -/
theorem exists_invokes_of_returned (behaviour : Behaviour) (depth : Nat)
    (htake : r.world.take s t = .started start w) {outcome : FiringOutcome} {r' : Run}
    (h : fire (caller behaviour depth) s t r = .ok outcome r') :
    outcome ≠ .skipped ∧ ∃ ms back, Invokes s t r start w ms back ∧
      Run.Bracketed t (r.starting s t start w) back ∧ r' = back.settling s t start := by
  obtain ⟨ms, hinvokes⟩ := invokes_of_take (keeps_continues behaviour depth) htake
  have hbracketed := Run.bracketed_caller behaviour depth t s start.callback
    (w.calls.get start.callback.key) start.args (r.starting s t start w)
  rw [← after_shield _ (w.scheduler s).config.catchPanics] at hinvokes hbracketed
  rw [fire_of_take htake] at h
  unfold after at hinvokes hbracketed
  cases hshield : shield (w.scheduler s).config.catchPanics
      (caller behaviour depth s start.callback (w.calls.get start.callback.key) start.args)
      (r.starting s t start w) with
  | ok ending back =>
    rw [hshield] at h hinvokes hbracketed
    cases h
    exact ⟨FiringOutcome.ofEnding_ne_skipped t start.callback ending, ms, back, hinvokes,
      hbracketed, rfl⟩
  | error i back =>
    rw [hshield] at h
    cases h

/-- Wherever in a run a timer is fired in the scheduler in which it waits, and whatever its callback
does, the firing takes this course. -/
theorem World.Arises.fire_course (h : r.world.Arises) (ht : t ∈ (r.world.scheduler s).items)
    (behaviour : Behaviour) (depth : Nat) :
    ∃ start w, Course (caller behaviour depth) s t r start w := by
  have hsound := h.sound
  obtain ⟨kind, trigger, hmem⟩ := mem_items.mp ht
  obtain ⟨start, w, htake⟩ := hsound.exists_take_eq_started hmem
  have hbegun := begun_of_take htake
  refine ⟨start, w, htake, hbegun.callback, hbegun.args.symm, refiled_starting hsound htake,
    returns_fire htake, fun {outcome r'} hfire => ?_⟩
  obtain ⟨hskipped, ms, back, hinvokes, hbracketed, rfl⟩ :=
    exists_invokes_of_returned behaviour depth htake hfire
  refine ⟨hskipped, (context_settle back.world s t start).trans (context_of_take htake), ms, ?_,
    fun hquiet => hinvokes.ends hsound ?_⟩
  · change _ :: back.journal = _
    rw [hinvokes.journal]
    rfl
  -- In between no firing of the timer ends, for none has begun there.
  · have hstep : r.world.Step _ (r.starting s t start w).world := .started htake
    have hmade : (r.starting s t start w).world.made t = true :=
      hstep.made (hsound.made (by simp [(hsound.entry hmem).1]))
    refine (hinvokes.path.untouched (hstep.sound hsound) hmade fun m hm => ?_).2
    exact ⟨hquiet m hm, hbracketed.settled?_ne hinvokes.journal hquiet m hm⟩

section Busy

/-- The first callback changes the context, moves the clock, makes a timer, cancels one, fires another
one, and panics. -/
def busy : Behaviour := fun key _ _ _ =>
  if key = 0 then
    .perform none (fun _ => .setContext 0 "dir" (.text "tmp")) fun _ =>
    .perform none (fun _ => .changeHost (.setNow (.ofSeconds 9))) fun _ =>
    .perform none (fun _ => .schedule 0 (.instant (.ofSeconds 4)) none ⟨1, none⟩ []) fun _ =>
    .perform none (fun _ => .cancel 0 ⟨3⟩) fun _ =>
    .perform none (fun _ => .fire 1 ⟨4⟩) fun _ => .panic (.literal "too busy")
  else .finish .succeeded

/-- A run to look at. Three timers call the busy callback: one repeats every second, one fires once,
and one fires in every idle period. -/
def busyRun : Run :=
  performAll busy 2
    [.schedule 0 (.instant (.ofSeconds 1)) (some (.ofSeconds 1)) ⟨0, none⟩ [.integer 7],
      .schedule 0 (.instant (.ofSeconds 1)) none ⟨0, none⟩ [],
      .scheduleWhenIdle 0 (.relative (.ofSeconds 2)) true ⟨0, none⟩ [],
      .schedule 0 (.instant (.ofSeconds 2)) none ⟨1, none⟩ [],
      .schedule 1 (.instant (.ofSeconds 1)) (some (.ofSeconds 1)) ⟨1, none⟩ [],
      .changeHost (.setNow (.ofSeconds 3))]
    { world := emptyWorld }

theorem reachable_busyRun : Reachable busyRun :=
  (Reachable.start fresh_emptyWorld).performAll _ _ _

attribute [irreducible] busyRun

/-- The three timers are fired from the same run. The first one waits for second 2 afterwards, though
the callback has set the clock to second 9. -/
theorem fire_course_busyRun :
    (∀ t ∈ [⟨0⟩, ⟨1⟩, ⟨2⟩], ∃ outcome r', fire (caller busy 2) 0 t busyRun = .ok outcome r' ∧
      outcome ≠ .skipped ∧ r'.world.host.now = .ofSeconds 9 ∧
      World.Refiled 0 t true busyRun.world r'.world) ∧
    (busyRun.world.timer ⟨0⟩).trigger = some (.onClock (.ofSeconds 1)) ∧
    (busyRun.world.timer ⟨0⟩).interval = some (.ofSeconds 1) ∧
    (busyRun.world.timer ⟨1⟩).interval = none ∧
    (busyRun.world.timer ⟨2⟩).trigger = some (.afterIdle (.ofSeconds 2)) ∧
    (busyRun.world.timer ⟨2⟩).interval = some (.ofSeconds 2) := by
  refine ⟨fun t ht => ?_, by decide +kernel, by decide +kernel, by decide +kernel,
    by decide +kernel, by decide +kernel⟩
  have hall : ∀ t ∈ [⟨0⟩, ⟨1⟩, ⟨2⟩], t ∈ (busyRun.world.scheduler 0).items ∧
      returns (fire (caller busy 2) 0 t) busyRun = true ∧
      (after (fire (caller busy 2) 0 t) busyRun).world.host.now = .ofSeconds 9 ∧
      ∀ m ∈ ((after (fire (caller busy 2) 0 t) busyRun).journal.drop 1).take
          ((after (fire (caller busy 2) 0 t) busyRun).journal.length - busyRun.journal.length - 2),
        ¬ m.event.Disturbs t := by decide +kernel
  obtain ⟨hitem, hreturns, hnow, hquiet⟩ := hall t ht
  obtain ⟨start, w, hcourse⟩ := reachable_busyRun.arises.fire_course hitem busy 2
  unfold returns at hreturns
  unfold after at hnow hquiet
  cases hfire : fire (caller busy 2) 0 t busyRun with
  | error i r' =>
    rw [hfire] at hreturns
    cases hreturns
  | ok outcome r' =>
    rw [hfire] at hnow hquiet
    obtain ⟨hskipped, -, ms, hjournal, hends⟩ := hcourse.returned hfire
    refine ⟨outcome, r', rfl, hskipped, hnow, hends ?_⟩
    have hms : ms = (r'.journal.drop 1).take (r'.journal.length - busyRun.journal.length - 2) := by
      have hlength : (busyRun.starting 0 t start w).journal.length = busyRun.journal.length + 1 :=
        rfl
      rw [hjournal, List.drop_one, List.tail_cons, List.take_left']
      simp only [List.length_cons, List.length_append, hlength]
      omega
    rw [hms]
    exact hquiet

end Busy

end Timekeeping
