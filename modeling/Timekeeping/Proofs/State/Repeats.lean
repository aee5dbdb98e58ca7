import Timekeeping.Proofs.State.Frames

/-!
What becomes of a timer that is taken out of its queue to be fired. One that
does not repeat stays out. One that repeats comes back under its next trigger,
triggered, and is live again when its callback came back.
-/
namespace Timekeeping.World

variable {w w' : World} {s : SchedulerId} {t : TimerId} {kind : QueueKind} {trigger : Trigger}
  {interval : Duration} {start : Started}

theorem queued_withdraw_of_once (h : (w.timer t).interval = none) :
    ((w.withdraw s t kind).timer t).queued = none := by
  simp [withdraw, requeue, h, timer_dequeue]

theorem nextTrigger_congr (hnow : w'.host.now = w.host.now)
    (hconfig : (w'.scheduler s).config = (w.scheduler s).config) (r : Timer) :
    w'.nextTrigger s r interval trigger = w.nextTrigger s r interval trigger := by
  cases trigger with
  | onClock time => simp only [nextTrigger, hnow, hconfig]
  | afterIdle delay => rfl

theorem kind_nextTrigger (w : World) (s : SchedulerId) (r : Timer) (interval : Duration)
    (trigger : Trigger) : (w.nextTrigger s r interval trigger).kind = trigger.kind := by
  cases trigger <;> rfl

/-- A repeating timer that is fired leaves its queue and is queued under its next trigger. -/
theorem withdraw_of_repeats (kind : QueueKind) (hinterval : (w.timer t).interval = some interval)
    (htrigger : (w.timer t).trigger = some trigger) :
    ∃ left : World, w.withdraw s t kind =
        left.enqueue s t (w.nextTrigger s (w.timer t) interval trigger) true ∧
      left.timer t = { w.timer t with
        triggered := true
        queued := none
        trigger := some (w.nextTrigger s (w.timer t) interval trigger) } ∧
      ∀ s' kind', left.waiting s' kind' = (w.dequeue s t kind).waiting s' kind' := by
  have hframe : SameFrame w ((w.dequeue s t kind).setTimer t
      { (w.dequeue s t kind).timer t with triggered := true }) :=
    (SameFrame.dequeue w s t kind).trans (.setTimer _ t _)
  unfold withdraw requeue
  dsimp only
  rw [hinterval, htrigger]
  dsimp only
  rw [nextTrigger_congr (congrArg Host.now hframe.host) (hframe.config s)]
  refine ⟨_, rfl, ?_, fun s' kind' => rfl⟩
  simp [timer_dequeue, hinterval]

theorem timer_withdraw_of_repeats (kind : QueueKind)
    (hinterval : (w.timer t).interval = some interval)
    (htrigger : (w.timer t).trigger = some trigger) :
    (w.withdraw s t kind).timer t = { w.timer t with
      triggered := true
      queued := some (w.nextTrigger s (w.timer t) interval trigger).kind
      trigger := some (w.nextTrigger s (w.timer t) interval trigger) } := by
  obtain ⟨left, heq, hrow, -⟩ := withdraw_of_repeats (s := s) kind hinterval htrigger
  rw [heq, timer_enqueue, if_pos rfl, hrow]

theorem mem_waiting_withdraw_of_repeats (kind : QueueKind)
    (hinterval : (w.timer t).interval = some interval)
    (htrigger : (w.timer t).trigger = some trigger) :
    (t, w.nextTrigger s (w.timer t) interval trigger) ∈
      (w.withdraw s t kind).waiting s (w.nextTrigger s (w.timer t) interval trigger).kind := by
  obtain ⟨left, heq, -, -⟩ := withdraw_of_repeats (s := s) kind hinterval htrigger
  rw [heq]
  exact mem_waiting_enqueue.mpr (Or.inr ⟨rfl, rfl, rfl⟩)

theorem callback_withdraw (w : World) (s : SchedulerId) (t : TimerId) (kind : QueueKind) :
    ((w.withdraw s t kind).timer t).callback = (w.timer t).callback := by
  unfold withdraw
  dsimp only
  obtain heq | ⟨next, heq⟩ := requeue_cases ((w.dequeue s t kind).setTimer t
    { (w.dequeue s t kind).timer t with triggered := true }) s t (w.timer t)
  · rw [heq]
    simp [timer_dequeue]
  · rw [heq]
    simp [timer_enqueue, timer_dequeue]

/-- A timer that waits after another one or itself was fired waited before, or was queued again. -/
theorem mem_waiting_withdraw {s' : SchedulerId} {kind' : QueueKind} {x : TimerId × Trigger}
    (h : x ∈ (w.withdraw s t kind).waiting s' kind') :
    x ∈ w.waiting s' kind' ∨ ∃ interval trigger, (w.timer t).interval = some interval ∧
      (w.timer t).trigger = some trigger ∧
      x = (t, w.nextTrigger s (w.timer t) interval trigger) := by
  by_cases hrepeats : ∃ interval trigger,
      (w.timer t).interval = some interval ∧ (w.timer t).trigger = some trigger
  · obtain ⟨interval, trigger, hinterval, htrigger⟩ := hrepeats
    obtain ⟨left, heq, -, hwaiting⟩ := withdraw_of_repeats (s := s) kind hinterval htrigger
    rw [heq] at h
    rcases mem_waiting_enqueue.mp h with hold | ⟨-, -, hnew⟩
    · rw [hwaiting] at hold
      exact Or.inl (waiting_dequeue_sublist.subset hold)
    · exact Or.inr ⟨interval, trigger, hinterval, htrigger, hnew⟩
  · left
    unfold withdraw requeue at h
    dsimp only at h
    split at h
    · rename_i interval trigger hinterval htrigger
      exact absurd ⟨interval, trigger, hinterval, htrigger⟩ hrepeats
    · exact waiting_dequeue_sublist.subset h

/-- A timer that is fired keeps its trigger, or has the one that follows in its repeats. -/
theorem trigger_withdraw (w : World) (s : SchedulerId) (t : TimerId) (kind : QueueKind) :
    ((w.withdraw s t kind).timer t).trigger = (w.timer t).trigger ∨
      ∃ interval trigger, (w.timer t).trigger = some trigger ∧
        ((w.withdraw s t kind).timer t).trigger =
          some (w.nextTrigger s (w.timer t) interval trigger) := by
  by_cases hrepeats : ∃ interval trigger,
      (w.timer t).interval = some interval ∧ (w.timer t).trigger = some trigger
  · obtain ⟨interval, trigger, hinterval, htrigger⟩ := hrepeats
    refine Or.inr ⟨interval, trigger, htrigger, ?_⟩
    rw [timer_withdraw_of_repeats kind hinterval htrigger]
  · left
    unfold withdraw requeue
    dsimp only
    split
    · rename_i interval trigger hinterval htrigger
      exact absurd ⟨interval, trigger, hinterval, htrigger⟩ hrepeats
    · simp [timer_dequeue]

/-- A timer of the active queue that repeats is to be live again. -/
theorem again_of_take (h : w.take s t = .started start w') :
    start.again = ((w.timer t).interval.isSome &&
      ((w.timer t).trigger.map Trigger.kind) = some .active) :=
  (begun_of_take h).again

/-- A repeating timer that is in the active queue is live when its firing is over. -/
theorem timer_settle_of_again (hagain : start.again = true)
    (hqueued : (w.timer t).queued = some .active) :
    (w.settle s t start).timer t = { w.timer t with triggered := false } := by
  unfold settle
  dsimp only
  rw [if_pos ⟨hagain, hqueued⟩, timer_setTimer, if_pos rfl, timer_setScheduler]

/-- The end of a firing leaves a timer that is not to be live again as it is. -/
theorem timer_settle_of_once (s : SchedulerId) (honce : start.again = false) :
    (w.settle s t start).timer t = w.timer t := by
  have hnot : ¬ start.again = true := by simp [honce]
  unfold settle
  dsimp only
  rw [if_neg fun h => hnot h.1, timer_setScheduler]

/-- The end of a firing leaves a timer as it is that is in no active queue. -/
theorem timer_settle_of_not_active (s : SchedulerId) (start : Started)
    (hqueued : (w.timer t).queued ≠ some .active) :
    (w.settle s t start).timer t = w.timer t := by
  unfold settle
  dsimp only
  rw [if_neg fun h => hqueued h.2, timer_setScheduler]

end Timekeeping.World
