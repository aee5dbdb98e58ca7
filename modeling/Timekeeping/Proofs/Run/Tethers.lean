import Timekeeping.Proofs.Run.Steps
import Timekeeping.Proofs.State.Repeats

/-!
Repeating timers of idle queues. Such a timer stays in its queue, under the same
delay, until it is cancelled. It is triggered when it is fired, and nothing but an
idle start of its scheduler makes it live again.
-/
namespace Timekeeping.World

/-- A repeating timer waits in the idle queue of a scheduler. -/
structure Tethered (w : World) (s : SchedulerId) (t : TimerId) (delay : Duration) : Prop where
  waits : (t, .afterIdle delay) ∈ w.waiting s .idle
  repeats : (w.timer t).interval.isSome = true

instance (w : World) (s : SchedulerId) (t : TimerId) (delay : Duration) :
    Decidable (w.Tethered s t delay) :=
  decidable_of_iff ((t, .afterIdle delay) ∈ w.waiting s .idle ∧ (w.timer t).interval.isSome = true)
    ⟨fun h => ⟨h.1, h.2⟩, fun h => ⟨h.waits, h.repeats⟩⟩

variable {w w' w₁ w₂ : World} {e : Event} {s : SchedulerId} {t : TimerId} {delay : Duration}
  {ms : List Moment}

/-- A timer that waits comes back when it is fired, under the same delay and triggered. -/
theorem Tethered.withdraw (h : w.Tethered s t delay) (hw : w.Sound) (kind : QueueKind) :
    (w.withdraw s t kind).Tethered s t delay ∧
      ((w.withdraw s t kind).timer t).triggered = true := by
  obtain ⟨interval, hinterval⟩ := Option.isSome_iff_exists.mp h.repeats
  have htrigger := (hw.entry h.waits).2
  have hrow := timer_withdraw_of_repeats (s := s) kind hinterval htrigger
  refine ⟨⟨mem_waiting_withdraw_of_repeats kind hinterval htrigger, ?_⟩, ?_⟩
  · rw [hrow]
    exact h.repeats
  · rw [hrow]

theorem Tethered.of_unchanged (h : w.Tethered s t delay) (hsame : Unchanged w w' t) :
    w'.Tethered s t delay :=
  ⟨(hsame.waiting _ _ _).mpr h.waits, by rw [hsame.timer]; exact h.repeats⟩

/-- A timer that is not cancelled stays in its queue. A step triggers it by starting it, and makes
it live by an idle start of its scheduler. -/
theorem Step.tethered (h : w.Step e w') (hw : w.Sound) (ht : w.Tethered s t delay)
    (hcancels : ¬ e.Cancels t) : w'.Tethered s t delay ∧
      (w'.timer t).triggered =
        if e.Starts t then true else if e.Rouses s then false else (w.timer t).triggered := by
  have hqueued := (hw.entry ht.waits).1
  by_cases htouch : e.Touches w' t
  · rcases h.touches_queued hw (by simp [hqueued]) htouch with
      hremoves | ⟨s', trigger, rfl, rfl, hmem⟩ | ⟨s', start, rfl, rfl⟩
    · cases h with
      | cancelled s' hts => exact absurd hremoves hcancels
      | @started s' u start w₁ htake =>
        obtain rfl : u = t := hremoves
        obtain ⟨kind, S, hkind, -, ha, hi, rfl⟩ := take_eq_started htake
        obtain ⟨-, trigger, hmem⟩ := (queueOf?_eq_some_iff _ _ _ _).mp hkind
        obtain ⟨rfl, -, -⟩ := hw.eq_of_mem_waiting hmem ht.waits
        obtain ⟨⟨hwaits, hrepeats⟩, htriggered⟩ := ht.withdraw hw kind
        refine ⟨⟨?_, hrepeats⟩, htriggered.trans (if_pos rfl).symm⟩
        rw [← waiting_setScheduler ha hi] at hwaits
        exact hwaits
      | emptied htake =>
        obtain rfl : _ = t := hremoves
        obtain ⟨-, -, hnone, -⟩ := take_eq_idle htake
        exact absurd hnone (hw.callback (by simp [hqueued]))
      | _ => exact hremoves.elim
    · obtain rfl := hw.unique hmem ht.waits
      have hrow : ((w.startIdle s').timer t) = { w.timer t with triggered := false } := by
        rw [startIdle_eq, timer_rouse, if_pos (mem_idle_items.mpr ⟨trigger, hmem⟩)]
      refine ⟨⟨?_, ?_⟩, ?_⟩
      · rw [startIdle_eq, waiting_rouse]
        exact ht.waits
      · rw [hrow]
        exact ht.repeats
      · rw [hrow]
        exact (if_pos rfl).symm
    · have hidle : (w.timer t).queued ≠ some .active := by simp [hqueued]
      have hrow := timer_settle_of_not_active s' start hidle
      refine ⟨⟨?_, ?_⟩, ?_⟩
      · rw [waiting_settle]
        exact ht.waits
      · rw [hrow]
        exact ht.repeats
      · rw [hrow]
        rfl
  · have hsame := h.unchanged htouch
    have htethered := ht.of_unchanged hsame
    have hrouses : ¬ e.Rouses s := by
      intro hrouses
      cases e with
      | idleStarted s' =>
        obtain rfl : s' = s := hrouses
        exact htouch (mem_idle_items.mpr ⟨_, htethered.waits⟩)
      | _ => exact hrouses.elim
    refine ⟨htethered, ?_⟩
    rw [if_neg fun hstarts => htouch hstarts.touches, if_neg hrouses, hsame.timer]

namespace Path

/-- Along a path a timer that is not cancelled stays in its queue. -/
theorem tethered (h : w₁.Path ms w₂) (hw : w₁.Sound) (ht : w₁.Tethered s t delay)
    (hcancels : ∀ m ∈ ms, ¬ m.event.Cancels t) :
    w₂.Tethered s t delay ∧ ∀ m ∈ ms, m.world.Tethered s t delay := by
  obtain ⟨hlast, hall⟩ := h.invariant_of (I := fun w => w.Sound ∧ w.Tethered s t delay)
    (fun hstep hkept hI => ⟨hstep.sound hI.1, (hstep.tethered hI.1 hI.2 hkept).1⟩) hcancels ⟨hw, ht⟩
  exact ⟨hlast.2, fun m hm => (hall m hm).2⟩

/-- A triggered timer stays so while there is no idle start. -/
theorem stays_triggered (h : w₁.Path ms w₂) (hw : w₁.Sound) (ht : w₁.Tethered s t delay)
    (htriggered : (w₁.timer t).triggered = true)
    (hcancels : ∀ m ∈ ms, ¬ m.event.Cancels t) (hrouses : ∀ m ∈ ms, ¬ m.event.Rouses s) :
    (w₂.timer t).triggered = true := by
  have hend := h.invariant_of (P := fun m => ¬ m.event.Cancels t ∧ ¬ m.event.Rouses s)
    (I := fun w => w.Sound ∧ w.Tethered s t delay ∧ (w.timer t).triggered = true)
    (fun hstep hkept hI => ?_) (fun m hm => ⟨hcancels m hm, hrouses m hm⟩) ⟨hw, ht, htriggered⟩
  · exact hend.1.2.2
  · obtain ⟨htethered, hflag⟩ := hstep.tethered hI.1 hI.2.1 hkept.1
    refine ⟨hstep.sound hI.1, htethered, ?_⟩
    rw [hflag, if_neg hkept.2, hI.2.2, ite_self]

/-- A live timer stays so while it is not started. -/
theorem stays_untriggered (h : w₁.Path ms w₂) (hw : w₁.Sound) (ht : w₁.Tethered s t delay)
    (hlive : (w₁.timer t).triggered = false)
    (hcancels : ∀ m ∈ ms, ¬ m.event.Cancels t) (hstarts : ∀ m ∈ ms, ¬ m.event.Starts t) :
    ∀ m ∈ ms, (m.world.timer t).triggered = false := by
  have hend := h.invariant_of (P := fun m => ¬ m.event.Cancels t ∧ ¬ m.event.Starts t)
    (I := fun w => w.Sound ∧ w.Tethered s t delay ∧ (w.timer t).triggered = false)
    (fun hstep hkept hI => ?_) (fun m hm => ⟨hcancels m hm, hstarts m hm⟩) ⟨hw, ht, hlive⟩
  · exact fun m hm => (hend.2 m hm).2.2
  · obtain ⟨htethered, hflag⟩ := hstep.tethered hI.1 hI.2.1 hkept.1
    refine ⟨hstep.sound hI.1, htethered, ?_⟩
    rw [hflag, if_neg hkept.2, hI.2.2, ite_self]

end Path

end Timekeeping.World
