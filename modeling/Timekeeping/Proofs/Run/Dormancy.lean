import Timekeeping.Proofs.Run.Snapshots
import Timekeeping.Proofs.Run.Tethers

/-!
Timers that sleep. Such a timer is in no queue, or it waits triggered in the idle
queue of a scheduler, so no pass may fire it. It goes on sleeping, whether it
repeats or not and whatever callbacks do to it, until it is armed again or an idle
start of its scheduler makes it live.
-/
namespace Timekeeping

namespace Event

/-- The timer that is queued for the next idle period, and the scheduler that it is queued in. -/
def deferred? : Event → Option (SchedulerId × TimerId)
  | armed s t .idle true => some (s, t)
  | _ => none

def Defers (e : Event) (s : SchedulerId) (t : TimerId) : Prop := e.deferred? = some (s, t)

instance (e : Event) (s : SchedulerId) (t : TimerId) : Decidable (e.Defers s t) :=
  inferInstanceAs (Decidable (e.deferred? = some (s, t)))

theorem Defers.eq {e : Event} {s : SchedulerId} {t : TimerId} (h : e.Defers s t) :
    e = .armed s t .idle true := by
  unfold Defers deferred? at h
  split at h
  · obtain ⟨rfl, rfl⟩ := Prod.mk.inj (Option.some.inj h)
    rfl
  · cases h

end Event

namespace World

/-- The timer is in no queue, or it waits triggered in the idle queue of this scheduler. -/
def Dormant (w : World) (s : SchedulerId) (t : TimerId) : Prop :=
  (w.timer t).queued = none ∨
    (w.timer t).triggered = true ∧ ∃ delay, (t, .afterIdle delay) ∈ w.waiting s .idle

variable {w w' w₁ w₂ : World} {e : Event} {s : SchedulerId} {t : TimerId} {trigger : Trigger}
  {ms : List Moment}

/-- No pass may fire a timer that sleeps. -/
theorem Dormant.not_live (h : w.Dormant s t) : ¬ w.Live (t, trigger) := by
  rintro ⟨hlive, hqueued, -⟩
  rcases h with hout | ⟨htriggered, -⟩
  · cases hout.symm.trans hqueued
  · cases htriggered.symm.trans hlive

theorem Dormant.of_unchanged (h : w.Dormant s t) (hsame : Unchanged w w' t) : w'.Dormant s t := by
  unfold Dormant
  rw [hsame.timer]
  refine h.imp_right fun ⟨htriggered, delay, hwaits⟩ => ⟨htriggered, delay, ?_⟩
  exact (hsame.waiting s .idle _).mpr hwaits

theorem Dormant.of_out (h : (w.timer t).queued = none) : w.Dormant s t := Or.inl h

/-- A timer that is fired while it sleeps does not come back, or comes back triggered. -/
theorem Dormant.withdraw (h : w.Dormant s t) (hw : w.Sound) {kind : QueueKind}
    (hkind : w.queueOf? s t = some kind) : (w.withdraw s t kind).Dormant s t := by
  obtain ⟨hqueued, -⟩ := (queueOf?_eq_some_iff _ _ _ _).mp hkind
  rcases h with hout | ⟨-, delay, hwaits⟩
  · cases hout.symm.trans hqueued
  · cases hinterval : (w.timer t).interval with
    | none => exact .of_out (queued_withdraw_of_once hinterval)
    | some interval =>
      have htethered : w.Tethered s t delay := ⟨hwaits, by rw [hinterval]; rfl⟩
      obtain ⟨hback, htriggered⟩ := htethered.withdraw hw kind
      exact Or.inr ⟨htriggered, delay, hback.waits⟩

/-- What waits in one idle queue is not started from another scheduler. -/
theorem Dormant.scheduler_eq (h : w.Dormant s t) (hw : w.Sound) {s' : SchedulerId}
    {kind : QueueKind} (hkind : w.queueOf? s' t = some kind) : s' = s := by
  obtain ⟨hqueued, trigger, hmem⟩ := (queueOf?_eq_some_iff _ _ _ _).mp hkind
  rcases h with hout | ⟨-, delay, hwaits⟩
  · cases hout.symm.trans hqueued
  · exact (hw.eq_of_mem_waiting hmem hwaits).1

/-- A timer that is queued for the next idle period sleeps. -/
theorem Step.dormant_of_defers (h : w.Step e w') (hdefers : e.Defers s t) : w'.Dormant s t := by
  rw [hdefers.eq] at h
  obtain ⟨w₀, trigger, hkind, rfl⟩ := h.of_armed
  cases trigger with
  | onClock time => cases hkind
  | afterIdle delay =>
    refine Or.inr ⟨?_, delay, mem_waiting_enqueue.mpr (Or.inr ⟨rfl, rfl, rfl⟩)⟩
    rw [timer_enqueue, if_pos rfl]

/-- A step that neither arms the timer nor starts an idle period of its scheduler leaves it asleep. -/
theorem Step.dormant (h : w.Step e w') (hw : w.Sound) (ht : w.Dormant s t) (harms : ¬ e.Arms t)
    (hrouses : ¬ e.Rouses s) : w'.Dormant s t := by
  by_cases htouch : e.Touches w' t
  · cases h with
    | created r hr =>
      obtain rfl : _ = t := htouch
      exact .of_out (by rw [timer_create, if_pos rfl]; exact hr.queued)
    | adjusted hadjust =>
      obtain rfl : _ = t := htouch
      obtain ⟨-, r, hr, rfl⟩ := adjust_eq_ok hadjust
      exact .of_out (by rw [timer_setTimer, if_pos rfl]; exact hr)
    | armed s' triggered hrow hmade => exact absurd htouch harms
    | scheduled s' triggered hr => exact absurd htouch harms
    | cancelled s' hts =>
      obtain ⟨kind, trigger, hmem⟩ := hts t htouch
      exact .of_out (queued_cancelAll hw htouch hmem)
    | idleStarted s' =>
      obtain ⟨trigger, hmem⟩ := mem_idle_items.mp htouch
      rw [startIdle_eq, waiting_rouse] at hmem
      rcases ht with hout | ⟨-, delay, hwaits⟩
      · exact absurd hmem (hw.not_mem_waiting hout)
      · exact absurd (hw.unique hmem hwaits) hrouses
    | @started s' u start w₁ htake =>
      obtain rfl : u = t := htouch
      obtain ⟨kind, S, hkind, -, ha, hi, rfl⟩ := take_eq_started htake
      obtain rfl := ht.scheduler_eq hw hkind
      have hsame : Unchanged (w.withdraw s' u kind) ((w.withdraw s' u kind).setScheduler s' S) u :=
        .setScheduler ha hi
      exact ((ht.withdraw hw hkind).of_unchanged hsame).of_unchanged
        (.congr rfl (fun _ => rfl) (fun _ => rfl))
    | settled s' u start =>
      obtain rfl : u = t := htouch
      rcases ht with hout | ⟨htriggered, delay, hwaits⟩
      · refine .of_out ?_
        obtain heq | heq := timer_settle w s' u start
        · rw [heq]
          exact hout
        · rw [heq]
          exact hout
      · refine Or.inr ⟨?_, delay, ?_⟩
        · rw [timer_settle_of_not_active s' start (by simp [(hw.entry hwaits).1])]
          exact htriggered
        · rw [waiting_settle]
          exact hwaits
    | emptied htake =>
      obtain rfl : _ = t := htouch
      obtain ⟨kind, hkind, -, rfl⟩ := take_eq_idle htake
      obtain rfl := ht.scheduler_eq hw hkind
      exact ht.withdraw hw hkind
    | _ => exact htouch.elim
  · exact ht.of_unchanged (h.unchanged htouch)

/-- Along a path a timer sleeps until it is armed or an idle period of its scheduler starts. -/
theorem Path.dormant (h : w₁.Path ms w₂) (hw : w₁.Sound) (ht : w₁.Dormant s t)
    (harms : ∀ m ∈ ms, ¬ m.event.Arms t) (hrouses : ∀ m ∈ ms, ¬ m.event.Rouses s) :
    w₂.Dormant s t ∧ ∀ m ∈ ms, m.world.Dormant s t := by
  obtain ⟨hlast, hall⟩ := h.invariant_of (P := fun m => ¬ m.event.Arms t ∧ ¬ m.event.Rouses s)
    (I := fun w => w.Sound ∧ w.Dormant s t)
    (fun hstep hkept hI => ⟨hstep.sound hI.1, hstep.dormant hI.1 hI.2 hkept.1 hkept.2⟩)
    (fun m hm => ⟨harms m hm, hrouses m hm⟩) ⟨hw, ht⟩
  exact ⟨hlast.2, fun m hm => (hall m hm).2⟩

end World
end Timekeeping
