import Timekeeping.Proofs.Run.Steps
import Timekeeping.Proofs.State.Repeats

/-!
What lasts of a timer. Timers are never unmade, and what setters set of one stays as
it is while it is queued, cancelled, woken and settled. Only a setter changes it, and
a firing, which moves the trigger of a timer that repeats.
-/
namespace Timekeeping

/-- The rows agree in when the timer fires and how it repeats. -/
structure Timer.SameSettings (r r' : Timer) : Prop where
  trigger : r'.trigger = r.trigger
  interval : r'.interval = r.interval
  aligned : r'.aligned = r.aligned

theorem Timer.SameSettings.refl (r : Timer) : r.SameSettings r := ⟨rfl, rfl, rfl⟩

theorem Timer.SameSettings.trans {r₁ r₂ r₃ : Timer} (h : r₁.SameSettings r₂)
    (h' : r₂.SameSettings r₃) : r₁.SameSettings r₃ :=
  ⟨h'.trigger.trans h.trigger, h'.interval.trans h.interval, h'.aligned.trans h.aligned⟩

namespace Event

/-- The timer of which a setter changes a setting. -/
def adjusted? : Event → Option TimerId
  | adjusted t => some t
  | _ => none

def Adjusts (e : Event) (t : TimerId) : Prop := e.adjusted? = some t

instance (e : Event) (t : TimerId) : Decidable (e.Adjusts t) :=
  inferInstanceAs (Decidable (e.adjusted? = some t))

end Event

namespace World

variable {w w' : World} {e : Event} {s : SchedulerId} {t : TimerId} {start : Started}

section Created

theorem created_rouse (w : World) (ts : List TimerId) : (w.rouse ts).created = w.created := by
  induction ts generalizing w with
  | nil => rfl
  | cons t rest ih => exact ih _

theorem created_cancelAll (w : World) (s : SchedulerId) (ts : List TimerId) :
    (w.cancelAll s ts).created = w.created := by
  induction ts generalizing w with
  | nil => rfl
  | cons t rest ih =>
    refine (ih (w.cancel s t)).trans ?_
    obtain ⟨-, heq⟩ | ⟨kind, -, heq⟩ := cancel_cases w s t
    · rw [heq]
    · rw [heq]
      rfl

theorem created_withdraw (w : World) (s : SchedulerId) (t : TimerId) (kind : QueueKind) :
    (w.withdraw s t kind).created = w.created := by
  unfold withdraw
  dsimp only
  obtain heq | ⟨next, heq⟩ := requeue_cases ((w.dequeue s t kind).setTimer t
    { (w.dequeue s t kind).timer t with triggered := true }) s t (w.timer t)
  · rw [heq]
    rfl
  · rw [heq]
    rfl

theorem created_settle (w : World) (s : SchedulerId) (t : TimerId) (start : Started) :
    (w.settle s t start).created = w.created := by
  obtain heq | heq := settle_cases w s t start
  · rw [heq]
    rfl
  · rw [heq]
    rfl

/-- No step unmakes a timer. -/
theorem Step.created_le (h : w.Step e w') : w.created ≤ w'.created := by
  cases h with
  | created r hr => exact Nat.le_succ _
  | adjusted hadjust =>
    obtain ⟨-, r, -, rfl⟩ := adjust_eq_ok hadjust
    exact Nat.le_refl _
  | scheduled s triggered hr => exact Nat.le_succ _
  | cancelled s hts => exact (created_cancelAll w s _).ge
  | idleStarted s => exact (created_rouse w _).ge
  | started htake =>
    obtain ⟨kind, S, -, -, -, -, rfl⟩ := take_eq_started htake
    exact (created_withdraw w _ _ kind).ge
  | settled s t start => exact (created_settle w s t start).ge
  | emptied htake =>
    obtain ⟨kind, -, -, rfl⟩ := take_eq_idle htake
    exact (created_withdraw w _ _ kind).ge
  | _ => exact Nat.le_refl _

theorem Step.made (h : w.Step e w') (ht : w.made t = true) : w'.made t = true := by
  have hle := h.created_le
  unfold World.made at *
  simp only [decide_eq_true_eq] at *
  omega

theorem made_create (w : World) (r : Timer) : (w.create r).2.made ⟨w.created⟩ = true := by
  simp [World.made, create]

theorem ne_of_made (ht : w.made t = true) : (⟨w.created⟩ : TimerId) ≠ t := by
  rintro rfl
  simp [World.made] at ht

end Created

section Settings

theorem settings_cancelAll (w : World) (s : SchedulerId) (ts : List TimerId) (t : TimerId) :
    (w.timer t).SameSettings ((w.cancelAll s ts).timer t) := by
  induction ts generalizing w with
  | nil => exact .refl _
  | cons u rest ih =>
    refine Timer.SameSettings.trans ?_ (ih (w.cancel s u))
    obtain ⟨-, heq⟩ | ⟨kind, -, heq⟩ := cancel_cases w s u
    · rw [heq]
      exact .refl _
    · rw [heq, timer_dequeue]
      split
      · subst u
        exact ⟨rfl, rfl, rfl⟩
      · exact .refl _

theorem settings_settle (w : World) (s : SchedulerId) (t : TimerId) (start : Started) :
    (w.timer t).SameSettings ((w.settle s t start).timer t) := by
  obtain heq | heq := timer_settle w s t start
  · rw [heq]
    exact .refl _
  · rw [heq]
    exact ⟨rfl, rfl, rfl⟩

theorem settings_rouse (w : World) (ts : List TimerId) (t : TimerId) :
    (w.timer t).SameSettings ((w.rouse ts).timer t) := by
  rw [timer_rouse]
  split
  · exact ⟨rfl, rfl, rfl⟩
  · exact .refl _

/-- A step keeps the settings of a timer if it neither adjusts nor fires it. -/
theorem Step.settings (h : w.Step e w') (hw : w.Sound) (hmade : w.made t = true)
    (hadjusts : ¬ e.Adjusts t) (hstarts : ¬ e.Starts t) :
    (w.timer t).SameSettings (w'.timer t) := by
  by_cases htouch : e.Touches w' t
  · cases h with
    | created r hr => exact absurd htouch (ne_of_made hmade)
    | adjusted hadjust => exact absurd (congrArg some htouch) hadjusts
    | armed s triggered hrow hmade' =>
      obtain rfl : _ = t := htouch
      rw [timer_enqueue, if_pos rfl]
      exact ⟨rfl, rfl, rfl⟩
    | scheduled s triggered hr => exact absurd htouch (ne_of_made hmade)
    | cancelled s hts => exact settings_cancelAll w s _ t
    | idleStarted s => exact settings_rouse w _ t
    | started htake => exact absurd htouch hstarts
    | settled s u start =>
      obtain rfl : u = t := htouch
      exact settings_settle w s u start
    | emptied htake =>
      obtain rfl : _ = t := htouch
      obtain ⟨kind, hkind, hnone, -⟩ := take_eq_idle htake
      have hqueued := ((queueOf?_eq_some_iff _ _ _ _).mp hkind).1
      exact absurd hnone (hw.callback (by simp [hqueued]))
    | _ => exact htouch.elim
  · rw [(h.unchanged htouch).timer]
    exact .refl _

/-- A repeating timer that is fired waits, triggered, under its next trigger. -/
theorem Step.requeued {kind : QueueKind} {callback : Callback} {call : Nat} {args : List Json}
    {interval : Duration} {trigger : Trigger}
    (h : w.Step (.started s t kind callback call args) w')
    (hinterval : (w.timer t).interval = some interval)
    (htrigger : (w.timer t).trigger = some trigger) :
    w'.timer t = { w.timer t with
        triggered := true
        queued := some trigger.kind
        trigger := some (w.nextTrigger s (w.timer t) interval trigger) } ∧
      (t, w.nextTrigger s (w.timer t) interval trigger) ∈ w'.waiting s trigger.kind ∧
      w'.host = w.host := by
  cases h with
  | started htake =>
    have hhost := (SameFrame.take htake).host
    obtain ⟨kind', S, -, -, ha, hi, rfl⟩ := take_eq_started htake
    have hrow := timer_withdraw_of_repeats (s := s) kind' hinterval htrigger
    have hwaits := mem_waiting_withdraw_of_repeats (s := s) kind' hinterval htrigger
    rw [kind_nextTrigger] at hrow hwaits
    rw [← waiting_setScheduler ha hi] at hwaits
    exact ⟨hrow, hwaits, hhost⟩

end Settings

end World
end Timekeeping
