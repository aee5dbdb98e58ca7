import Timekeeping.Proofs.Run.Snapshots
import Timekeeping.Proofs.Run.Steps
import Timekeeping.Proofs.State.Repeats

/-!
Timers that are queued for an instant without firing. Such a timer waits triggered in the
active queue of a scheduler. It stays there triggered whatever happens, until it is taken
out, or until a firing of it that began before it was queued comes to its end: that one
takes the timer for the one that it has queued again itself.
-/
namespace Timekeeping

namespace Event

/-- The timer that is queued for an instant without firing, and the scheduler that it is queued in. -/
def disabled? : Event → Option (SchedulerId × TimerId)
  | armed s t .active true => some (s, t)
  | _ => none

def Disables (e : Event) (s : SchedulerId) (t : TimerId) : Prop := e.disabled? = some (s, t)

instance (e : Event) (s : SchedulerId) (t : TimerId) : Decidable (e.Disables s t) :=
  inferInstanceAs (Decidable (e.disabled? = some (s, t)))

/-- The timer that repeats on the clock and whose callback came back. -/
def revived? : Event → Option TimerId
  | settled _ t true => some t
  | _ => none

def Revives (e : Event) (t : TimerId) : Prop := e.revived? = some t

instance (e : Event) (t : TimerId) : Decidable (e.Revives t) :=
  inferInstanceAs (Decidable (e.revived? = some t))

theorem Disables.eq {e : Event} {s : SchedulerId} {t : TimerId} (h : e.Disables s t) :
    e = .armed s t .active true := by
  unfold Disables disabled? at h
  split at h
  · obtain ⟨rfl, rfl⟩ := Prod.mk.inj (Option.some.inj h)
    rfl
  · cases h

theorem Revives.exists_eq {e : Event} {t : TimerId} (h : e.Revives t) :
    ∃ s, e = .settled s t true := by
  unfold Revives revived? at h
  split at h
  · cases h
    exact ⟨_, rfl⟩
  · cases h

end Event

namespace World

/-- The timer waits triggered in the active queue of this scheduler. -/
def Disabled (w : World) (s : SchedulerId) (t : TimerId) : Prop :=
  (w.timer t).triggered = true ∧ t ∈ (w.scheduler s).active.items

instance (w : World) (s : SchedulerId) (t : TimerId) : Decidable (w.Disabled s t) :=
  inferInstanceAs (Decidable (_ ∧ _))

variable {w w' w₁ w₂ : World} {e : Event} {s : SchedulerId} {t : TimerId} {trigger : Trigger}
  {ms : List Moment}

/-- No pass may fire a timer that is disabled. -/
theorem Disabled.not_live (h : w.Disabled s t) : ¬ w.Live (t, trigger) := by
  intro hlive
  cases h.1.symm.trans hlive.1

theorem Disabled.of_unchanged (h : w.Disabled s t) (hsame : Unchanged w w' t) :
    w'.Disabled s t := by
  obtain ⟨trigger, hmem⟩ := mem_active_items.mp h.2
  refine ⟨?_, mem_active_items.mpr ⟨trigger, (hsame.waiting s .active trigger).mpr hmem⟩⟩
  rw [hsame.timer]
  exact h.1

theorem Disabled.queued (h : w.Disabled s t) (hw : w.Sound) :
    (w.timer t).queued = some .active := by
  obtain ⟨trigger, hmem⟩ := mem_active_items.mp h.2
  exact (hw.entry hmem).1

theorem disabled_enqueue (w : World) (s : SchedulerId) (t : TimerId)
    (hkind : trigger.kind = .active) : (w.enqueue s t trigger true).Disabled s t := by
  refine ⟨?_, mem_active_items.mpr ⟨trigger, ?_⟩⟩
  · rw [timer_enqueue, if_pos rfl]
  · exact mem_waiting_enqueue.mpr (Or.inr ⟨rfl, hkind, rfl⟩)

/-- A timer that is queued without firing is disabled. -/
theorem Step.disabled_of_disables (h : w.Step e w') (hdisables : e.Disables s t) :
    w'.Disabled s t := by
  rw [hdisables.eq] at h
  obtain ⟨w₀, trigger, hkind, rfl⟩ := h.of_armed
  exact disabled_enqueue w₀ s t hkind

/-- A step that neither takes the timer out of its queue nor revives it leaves it disabled. -/
theorem Step.disabled (h : w.Step e w') (hw : w.Sound) (ht : w.Disabled s t)
    (hremoves : ¬ e.Removes t) (hrevives : ¬ e.Revives t) : w'.Disabled s t := by
  by_cases htouch : e.Touches w' t
  · have hqueued := ht.queued hw
    rcases h.touches_queued hw (by simp [hqueued]) htouch with
      hremove | ⟨s', trigger, -, -, hmem⟩ | ⟨s', start, rfl, rfl⟩
    · exact absurd hremove hremoves
    · -- What waits in the active queue of one scheduler is in the idle queue of none.
      cases hqueued.symm.trans (hw.entry hmem).1
    · have honce : start.again = false := by
        rw [Bool.eq_false_iff]
        intro hagain
        apply hrevives
        rw [hagain]
        rfl
      obtain ⟨trigger, hmem⟩ := mem_active_items.mp ht.2
      refine ⟨?_, mem_active_items.mpr ⟨trigger, ?_⟩⟩
      · rw [timer_settle_of_once s' honce]
        exact ht.1
      · rw [waiting_settle]
        exact hmem
  · exact ht.of_unchanged (h.unchanged htouch)

/-- A timer of an active queue that is revived is live. -/
theorem Step.live_of_revives (h : w.Step e w') (hqueued : (w.timer t).queued = some .active)
    (hrevives : e.Revives t) : (w'.timer t).triggered = false := by
  obtain ⟨s, hevent⟩ := hrevives.exists_eq
  cases h with
  | settled s' u start =>
    injection hevent with hs ht hagain
    subst hs ht
    rw [timer_settle_of_again hagain hqueued]
  | _ => cases hevent

/-- Along a path a timer stays disabled until it is taken out of its queue or revived. -/
theorem Path.disabled (h : w₁.Path ms w₂) (hw : w₁.Sound) (ht : w₁.Disabled s t)
    (hremoves : ∀ m ∈ ms, ¬ m.event.Removes t) (hrevives : ∀ m ∈ ms, ¬ m.event.Revives t) :
    w₂.Disabled s t ∧ ∀ m ∈ ms, m.world.Disabled s t := by
  obtain ⟨hlast, hall⟩ := h.invariant_of (P := fun m => ¬ m.event.Removes t ∧ ¬ m.event.Revives t)
    (I := fun w => w.Sound ∧ w.Disabled s t)
    (fun hstep hkept hI => ⟨hstep.sound hI.1, hstep.disabled hI.1 hI.2 hkept.1 hkept.2⟩)
    (fun m hm => ⟨hremoves m hm, hrevives m hm⟩) ⟨hw, ht⟩
  exact ⟨hlast.2, fun m hm => (hall m hm).2⟩

end World
end Timekeeping
