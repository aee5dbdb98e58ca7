import Timekeeping.Scheduler.Arming
import Timekeeping.Scheduler.Firing
import Timekeeping.Proofs.State.Soundness

/-!
What the operations on timers do: each keeps queues and rows in agreement and
leaves all timers alone but those that it is about.
-/
namespace Timekeeping

theorem Except.exists_of_bind_eq_ok {ε α β : Type} {x : Except ε α} {f : α → Except ε β} {b : β}
    (h : x >>= f = .ok b) : ∃ a, x = .ok a ∧ f a = .ok b := by
  cases x with
  | error e => cases h
  | ok a => exact ⟨a, rfl, h⟩

theorem Timer.queued_apply {r r' : Timer} {setting : Timer.Setting} (h : r.apply setting = .ok r') :
    r'.queued = r.queued := by
  cases setting with
  | shift delta =>
    unfold Timer.apply at h
    cases htrigger : r.trigger with
    | none => simp [htrigger] at h
    | some trigger =>
      simp only [htrigger, Except.ok.injEq] at h
      subst h
      rfl
  | _ =>
    cases h
    rfl

/-- A timer with this row may be queued under the trigger. -/
structure Timer.Armable (r : Timer) (trigger : Trigger) : Prop where
  queued : r.queued = none
  trigger : r.trigger = some trigger
  callback : r.callback ≠ none

/-- What schedulers ask of a timer that they set up: the interval of one that repeats on the clock is
positive, and one that waits for idleness does not wait for a negative time. -/
def Timer.Valid (r : Timer) : Prop :=
  match r.trigger with
  | some (.onClock _) => ∀ i ∈ r.interval, i.IsPositive
  | some (.afterIdle delay) => ¬ delay.IsNegative
  | none => True

instance (r : Timer) : Decidable r.Valid := by
  unfold Timer.Valid
  split
  · exact inferInstance
  · exact inferInstance
  · exact isTrue trivial

/-- The row of a timer that is being made. -/
structure Timer.New (r : Timer) : Prop where
  queued : r.queued = none
  triggered : r.triggered = true
  valid : r.Valid

theorem Timer.new_empty : Timer.New {} := ⟨rfl, rfl, trivial⟩

theorem Timer.armable_of_clockKey {r : Timer} {number : Nat} {time : Instant}
    (h : r.clockKey number = .ok time) : r.Armable (.onClock time) := by
  unfold Timer.clockKey at h
  split at h
  · cases h
  · split at h
    · cases h
    · rename_i hqueued hcallback
      split at h <;> cases h
      exact ⟨by simpa using hqueued, by assumption, by simpa using hcallback⟩

theorem Timer.armable_of_idleKey {r : Timer} {number : Nat} {delay : Duration}
    (h : r.idleKey number = .ok delay) : r.Armable (.afterIdle delay) := by
  unfold Timer.idleKey at h
  split at h
  · cases h
  · split at h
    · cases h
    · rename_i hqueued hcallback
      split at h <;> cases h
      exact ⟨by simpa using hqueued, by assumption, by simpa using hcallback⟩

namespace World

/-- A timer has the same row in both worlds and waits in the same place. -/
structure Unchanged (w w' : World) (t : TimerId) : Prop where
  timer : w'.timer t = w.timer t
  waiting : ∀ s kind trigger, (t, trigger) ∈ w'.waiting s kind ↔ (t, trigger) ∈ w.waiting s kind

variable {w w' : World} {s : SchedulerId} {t u : TimerId} {kind : QueueKind} {trigger : Trigger}

namespace Unchanged

theorem refl (w : World) (t : TimerId) : Unchanged w w t := ⟨rfl, fun _ _ _ => Iff.rfl⟩

theorem trans {w₁ w₂ w₃ : World} (h : Unchanged w₁ w₂ t) (h' : Unchanged w₂ w₃ t) :
    Unchanged w₁ w₃ t :=
  ⟨h'.timer.trans h.timer,
    fun s kind trigger => (h'.waiting s kind trigger).trans (h.waiting s kind trigger)⟩

theorem congr (htimer : w'.timers = w.timers)
    (hactive : ∀ s, (w'.scheduler s).active = (w.scheduler s).active)
    (hidle : ∀ s, (w'.scheduler s).idle = (w.scheduler s).idle) : Unchanged w w' t := by
  refine ⟨congrArg (Table.get · t) htimer, fun s kind trigger => ?_⟩
  rw [waiting_congr hactive hidle]

theorem setTimer (h : t ≠ u) (r : Timer) : Unchanged w (w.setTimer t r) u :=
  ⟨by rw [timer_setTimer, if_neg h], fun _ _ _ => Iff.rfl⟩

theorem enqueue (h : t ≠ u) (triggered : Bool) :
    Unchanged w (w.enqueue s t trigger triggered) u := by
  refine ⟨by rw [timer_enqueue, if_neg h], fun s' kind trigger' => ?_⟩
  rw [mem_waiting_enqueue]
  constructor
  · rintro (hold | ⟨-, -, heq⟩)
    · exact hold
    · exact absurd (Prod.mk.inj heq).1.symm h
  · exact Or.inl

theorem dequeue (h : t ≠ u) : Unchanged w (w.dequeue s t kind) u := by
  refine ⟨by rw [timer_dequeue, if_neg h], fun s' kind' trigger => ?_⟩
  unfold World.waiting
  rw [scheduler_dequeue]
  by_cases hs : s = s'
  · subst hs
    rw [if_pos rfl]
    by_cases hk : kind = kind'
    · subst hk
      rw [Scheduler.waiting_dequeue]
      exact List.mem_eraseP_of_neg (by simpa using Ne.symm h)
    · rw [Scheduler.waiting_dequeue_of_ne hk]
  · rw [if_neg hs]

theorem create (h : ⟨w.created⟩ ≠ u) (r : Timer) : Unchanged w (w.create r).2 u :=
  ⟨by rw [timer_create, if_neg h], fun _ _ _ => Iff.rfl⟩

end Unchanged

/-- A scheduler may change beside its queues. -/
theorem Sound.setScheduler (h : w.Sound) {S : Scheduler} (ha : S.active = (w.scheduler s).active)
    (hi : S.idle = (w.scheduler s).idle) : (w.setScheduler s S).Sound :=
  h.congr rfl rfl (active_setScheduler ha) (idle_setScheduler hi)

theorem Unchanged.setScheduler {S : Scheduler} (ha : S.active = (w.scheduler s).active)
    (hi : S.idle = (w.scheduler s).idle) : Unchanged w (w.setScheduler s S) t :=
  .congr rfl (active_setScheduler ha) (idle_setScheduler hi)

/-- A setting is applied to a timer that is in no queue. -/
theorem apply_of_adjust {setting : Timer.Setting} (h : w.adjust t setting = .ok w') :
    (w.timer t).queued = none ∧
      ∃ r, (w.timer t).apply setting = .ok r ∧ w' = w.setTimer t r := by
  unfold adjust Timer.adjust at h
  by_cases hqueued : (w.timer t).queued.isSome = true
  · rw [if_pos hqueued] at h
    cases h
  · rw [if_neg hqueued] at h
    have hnone : (w.timer t).queued = none := by simpa using hqueued
    cases happly : (w.timer t).apply setting with
    | error fault =>
      rw [happly] at h
      cases h
    | ok r =>
      rw [happly] at h
      cases h
      exact ⟨hnone, r, rfl, rfl⟩

/-- A setting changes a timer that is in no queue. -/
theorem adjust_eq_ok {setting : Timer.Setting} (h : w.adjust t setting = .ok w') :
    (w.timer t).queued = none ∧ ∃ r, r.queued = none ∧ w' = w.setTimer t r := by
  obtain ⟨hnone, r, happly, rfl⟩ := apply_of_adjust h
  exact ⟨hnone, r, (Timer.queued_apply happly).trans hnone, rfl⟩

theorem arm_eq_ok {triggered : Bool} (h : w.arm s t triggered = .ok w') :
    ∃ time, (w.timer t).Armable (.onClock time) ∧ w' = w.enqueue s t (.onClock time) triggered := by
  obtain ⟨time, hkey, heq⟩ := Except.exists_of_bind_eq_ok h
  cases heq
  exact ⟨time, Timer.armable_of_clockKey hkey, rfl⟩

theorem armIdle_eq_ok {immediate : Bool} (h : w.armIdle s t immediate = .ok w') :
    ∃ delay, (w.timer t).Armable (.afterIdle delay) ∧
      w' = w.enqueue s t (.afterIdle delay) !immediate := by
  obtain ⟨delay, hkey, heq⟩ := Except.exists_of_bind_eq_ok h
  cases heq
  exact ⟨delay, Timer.armable_of_idleKey hkey, rfl⟩

theorem arm_of_armable {time : Instant} (s : SchedulerId) (triggered : Bool)
    (h : (w.timer t).Armable (.onClock time)) :
    w.arm s t triggered = .ok (w.enqueue s t (.onClock time) triggered) := by
  unfold arm Timer.clockKey
  simp [h.queued, h.callback, h.trigger]

theorem armIdle_of_armable {delay : Duration} (s : SchedulerId) (immediate : Bool)
    (h : (w.timer t).Armable (.afterIdle delay)) :
    w.armIdle s t immediate = .ok (w.enqueue s t (.afterIdle delay) !immediate) := by
  unfold armIdle Timer.idleKey
  simp [h.queued, h.callback, h.trigger]

/-- A timer that was just made is armable if its row is. -/
theorem armable_create (w : World) {r : Timer} (h : r.Armable trigger) :
    ((w.create r).2.timer ⟨w.created⟩).Armable trigger := by
  rw [timer_create, if_pos rfl]
  exact h

theorem Sound.enqueue_of_armable {triggered : Bool} (h : w.Sound) (ha : (w.timer t).Armable trigger)
    (hmade : w.made t = true) : (w.enqueue s t trigger triggered).Sound :=
  h.enqueue ha.queued ha.trigger ha.callback hmade

theorem prepare_eq_ok {timing : Timing} {interval : Option Duration} {callback : Callback}
    {args : List Json} (h : w.prepare s timing interval callback args = .ok (t, w')) :
    ∃ r time, r.New ∧ r.Armable (.onClock time) ∧ t = ⟨w.created⟩ ∧ w' = (w.create r).2 := by
  unfold prepare at h
  split at h
  · cases h
  · next hinterval =>
    split at h
    · cases h
    · cases h
      refine ⟨_, _, ⟨rfl, rfl, ?_⟩, ⟨rfl, rfl, Option.some_ne_none callback⟩, rfl, rfl⟩
      intro i hi
      have hpositive := Option.filter_eq_none_iff.mp hinterval i hi
      simpa using hpositive

theorem schedule_eq_ok {timing : Timing} {interval : Option Duration} {callback : Callback}
    {args : List Json} (h : w.schedule s timing interval callback args = .ok (t, w')) :
    ∃ r time, r.New ∧ r.Armable (.onClock time) ∧ t = ⟨w.created⟩ ∧
      w' = (w.create r).2.enqueue s t (.onClock time) false := by
  obtain ⟨⟨u, w₁⟩, hprepare, harm⟩ := Except.exists_of_bind_eq_ok h
  obtain ⟨r, time, hnew, hrow, rfl, rfl⟩ := prepare_eq_ok hprepare
  dsimp only at harm
  rw [arm_of_armable s false (armable_create w hrow)] at harm
  cases harm
  exact ⟨r, time, hnew, hrow, rfl, rfl⟩

theorem not_isNegative_of_waitWhenIdle {timing : Timing} {delay : Duration}
    (h : timing.waitWhenIdle = .ok delay) : ¬ delay.IsNegative := by
  unfold Timing.waitWhenIdle at h
  split at h
  · cases h
  · split at h
    · cases h
    · next hnegative =>
      cases h
      exact hnegative

theorem scheduleWhenIdle_eq_ok {timing : Timing} {again : Bool} {callback : Callback}
    {args : List Json} (h : w.scheduleWhenIdle s timing again callback args = .ok (t, w')) :
    ∃ r delay, r.New ∧ r.Armable (.afterIdle delay) ∧ t = ⟨w.created⟩ ∧
      w' = (w.create r).2.enqueue s t (.afterIdle delay) false := by
  unfold scheduleWhenIdle at h
  split at h
  · cases h
  · next delay hwait =>
    let r : Timer := {
      trigger := some (.afterIdle delay)
      interval := if again then some delay else none
      callback := some callback
      args }
    have hrow : r.Armable (.afterIdle delay) := ⟨rfl, rfl, Option.some_ne_none callback⟩
    have hnew : r.New := ⟨rfl, rfl, not_isNegative_of_waitWhenIdle hwait⟩
    obtain ⟨w₂, harm, heq⟩ := Except.exists_of_bind_eq_ok h
    have harm' := armIdle_of_armable s true (armable_create w hrow)
    cases heq
    cases harm'.symm.trans harm
    exact ⟨r, delay, hnew, hrow, rfl, rfl⟩

end World
end Timekeeping
