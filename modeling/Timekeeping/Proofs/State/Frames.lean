import Timekeeping.Proofs.State.Removals

/-!
What operations on timers leave alone: the host, what loops remember of it, and the
settings and contexts of schedulers.
-/
namespace Timekeeping

namespace Scheduler

variable (S : Scheduler) (t : TimerId)

theorem config_enqueue (trigger : Trigger) : (S.enqueue t trigger).config = S.config := by
  cases trigger <;> rfl

theorem config_dequeue (kind : QueueKind) : (S.dequeue t kind).config = S.config := by
  cases kind <;> rfl

/-- Something of a scheduler that lies beside its queues. -/
structure Beside {α : Type} (f : Scheduler → α) : Prop where
  enqueue : ∀ S t trigger, f (S.enqueue t trigger) = f S
  dequeue : ∀ S t kind, f (S.dequeue t kind) = f S

theorem beside_context : Beside Scheduler.context where
  enqueue _ _ trigger := by cases trigger <;> rfl
  dequeue _ _ kind := by cases kind <;> rfl

theorem beside_history : Beside Scheduler.history where
  enqueue _ _ trigger := by cases trigger <;> rfl
  dequeue _ _ kind := by cases kind <;> rfl

end Scheduler

namespace World

/-- The host, what loops remember of it, and the settings of schedulers are the same. -/
structure SameFrame (w w' : World) : Prop where
  host : w'.host = w.host
  loops : w'.loops = w.loops
  config : ∀ s, (w'.scheduler s).config = (w.scheduler s).config

variable {w w' : World} {s : SchedulerId} {t : TimerId} {start : Started}

namespace SameFrame

theorem refl (w : World) : SameFrame w w := ⟨rfl, rfl, fun _ => rfl⟩

theorem trans {w₁ w₂ w₃ : World} (h : SameFrame w₁ w₂) (h' : SameFrame w₂ w₃) : SameFrame w₁ w₃ :=
  ⟨h'.host.trans h.host, h'.loops.trans h.loops, fun s => (h'.config s).trans (h.config s)⟩

theorem setScheduler {S : Scheduler} (h : S.config = (w.scheduler s).config) :
    SameFrame w (w.setScheduler s S) := by
  refine ⟨rfl, rfl, fun s' => ?_⟩
  rw [scheduler_setScheduler]
  split
  · subst s'
    exact h
  · rfl

theorem setTimer (w : World) (t : TimerId) (r : Timer) : SameFrame w (w.setTimer t r) :=
  ⟨rfl, rfl, fun _ => rfl⟩

theorem enqueue (w : World) (s : SchedulerId) (t : TimerId) (trigger : Trigger)
    (triggered : Bool) : SameFrame w (w.enqueue s t trigger triggered) :=
  (setTimer w t _).trans (setScheduler (Scheduler.config_enqueue ..))

theorem dequeue (w : World) (s : SchedulerId) (t : TimerId) (kind : QueueKind) :
    SameFrame w (w.dequeue s t kind) :=
  (setScheduler (Scheduler.config_dequeue ..)).trans (setTimer _ t _)

theorem requeue (w : World) (s : SchedulerId) (t : TimerId) (r : Timer) :
    SameFrame w (w.requeue s t r) := by
  obtain heq | ⟨next, heq⟩ := requeue_cases w s t r
  · rw [heq]
    exact refl w
  · rw [heq]
    exact (setTimer w t _).trans (enqueue _ s t next true)

theorem withdraw (w : World) (s : SchedulerId) (t : TimerId) (kind : QueueKind) :
    SameFrame w (w.withdraw s t kind) :=
  ((dequeue w s t kind).trans (setTimer _ t _)).trans (requeue _ s t _)

theorem settle (w : World) (s : SchedulerId) (t : TimerId) (start : Started) :
    SameFrame w (w.settle s t start) := by
  have hcontext :
      SameFrame w (w.setScheduler s { w.scheduler s with context := start.context }) :=
    setScheduler rfl
  obtain heq | heq := settle_cases w s t start
  · rw [heq]
    exact hcontext
  · rw [heq]
    exact hcontext.trans (setTimer _ t _)

theorem rouse (w : World) (ts : List TimerId) : SameFrame w (w.rouse ts) := by
  induction ts generalizing w with
  | nil => exact refl w
  | cons t rest ih => exact (setTimer w t _).trans (ih _)

theorem cancel (w : World) (s : SchedulerId) (t : TimerId) : SameFrame w (w.cancel s t) := by
  obtain ⟨-, heq⟩ | ⟨kind, -, heq⟩ := cancel_cases w s t
  · rw [heq]
    exact refl w
  · rw [heq]
    exact dequeue w s t kind

theorem cancelAll (w : World) (s : SchedulerId) (ts : List TimerId) :
    SameFrame w (w.cancelAll s ts) := by
  induction ts generalizing w with
  | nil => exact refl w
  | cons t rest ih => exact (cancel w s t).trans (ih _)

theorem take (h : w.take s t = .started start w') : SameFrame w w' := by
  rw [(begun_of_take h).world]
  exact (withdraw w s t start.kind).trans (.setScheduler rfl)

end SameFrame

section Beside

variable {s' : SchedulerId} {α : Type} {f : Scheduler → α}

theorem beside_enqueue (hf : Scheduler.Beside f) (w : World) (s : SchedulerId) (t : TimerId)
    (trigger : Trigger) (triggered : Bool) :
    f ((w.enqueue s t trigger triggered).scheduler s') = f (w.scheduler s') := by
  rw [scheduler_enqueue]
  split
  · subst s'
    exact hf.enqueue ..
  · rfl

theorem beside_dequeue (hf : Scheduler.Beside f) (w : World) (s : SchedulerId) (t : TimerId)
    (kind : QueueKind) : f ((w.dequeue s t kind).scheduler s') = f (w.scheduler s') := by
  rw [scheduler_dequeue]
  split
  · subst s'
    exact hf.dequeue ..
  · rfl

/-- To be fired, a timer leaves its queue and comes back, and nothing beside the queues changes. -/
theorem beside_withdraw (hf : Scheduler.Beside f) (w : World) (s : SchedulerId) (t : TimerId)
    (kind : QueueKind) : f ((w.withdraw s t kind).scheduler s') = f (w.scheduler s') := by
  unfold withdraw
  dsimp only
  obtain heq | ⟨next, heq⟩ := requeue_cases ((w.dequeue s t kind).setTimer t
    { (w.dequeue s t kind).timer t with triggered := true }) s t (w.timer t)
  · rw [heq]
    exact beside_dequeue hf w s t kind
  · rw [heq, beside_enqueue hf]
    exact beside_dequeue hf w s t kind

theorem beside_cancelAll (hf : Scheduler.Beside f) (w : World) (s : SchedulerId)
    (ts : List TimerId) : f ((w.cancelAll s ts).scheduler s') = f (w.scheduler s') := by
  induction ts generalizing w with
  | nil => rfl
  | cons t rest ih =>
    refine (ih (w.cancel s t)).trans ?_
    obtain ⟨-, heq⟩ | ⟨kind, -, heq⟩ := cancel_cases w s t
    · rw [heq]
    · rw [heq]
      exact beside_dequeue hf w s t kind

/-- A firing is to restore the context that its scheduler has when it starts. -/
theorem context_of_take (h : w.take s t = .started start w') :
    start.context = (w.scheduler s).context :=
  (begun_of_take h).context.trans (beside_withdraw Scheduler.beside_context w s t start.kind)

theorem context_settle (w : World) (s : SchedulerId) (t : TimerId) (start : Started) :
    ((w.settle s t start).scheduler s).context = start.context := by
  obtain heq | heq := settle_cases w s t start
  · rw [heq, scheduler_setScheduler, if_pos rfl]
  · rw [heq, scheduler_setTimer, scheduler_setScheduler, if_pos rfl]

end Beside

end World
end Timekeeping
