import Timekeeping.Proofs.Run.QuietFiring
import Timekeeping.Proofs.Run.Settings

/-!
Queues in the order of totals. Their entries are in the order of the stored keys, which is
that of totals only while the keys are normal. Schedulers make no key that is not: the next
trigger of a timer that repeats on the clock is normal whatever the last one was, and one
that waits for idleness keeps its trigger. So the keys are normal as long as programs set
normal triggers.
-/
namespace Timekeeping

/-- The trigger of the timer is normal, if it has one. -/
def Timer.Timely (r : Timer) : Prop := ∀ trigger ∈ r.trigger, Trigger.Normal trigger

/-- A program may have set the trigger of the timer. -/
def Event.Sets : Event → TimerId → Prop
  | created u, t => u = t
  | adjusted u, t => u = t
  | armed _ u _ _, t => u = t
  | _, _ => False

theorem Timer.SameSettings.timely {r r' : Timer} (h : r.SameSettings r') (hr : r.Timely) :
    r'.Timely := by
  unfold Timer.Timely
  rw [h.trigger]
  exact hr

namespace World

/-- Both queues of every scheduler are in the order of the totals of their keys. -/
structure OrderedByTotals (w : World) : Prop where
  active : ∀ s, (w.scheduler s).active.entries.Pairwise fun a b => a.key.total ≤ b.key.total
  idle : ∀ s, (w.scheduler s).idle.entries.Pairwise fun a b => a.key.total ≤ b.key.total

variable {w w' w₁ w₂ : World} {e : Event} {t : TimerId} {ms : List Moment}

theorem timely_withdraw (h : (w.timer t).Timely) (s : SchedulerId) (kind : QueueKind) :
    ((w.withdraw s t kind).timer t).Timely := by
  intro next hnext
  rcases trigger_withdraw w s t kind with hsame | ⟨interval, trigger, htrigger, hfollows⟩
  · rw [hsame] at hnext
    exact h next hnext
  · rw [hfollows] at hnext
    cases hnext
    exact nextTrigger_normal w s _ interval fun _ => h trigger htrigger

/-- A step that does not set the trigger of a timer leaves it normal. -/
theorem Step.timely (h : w.Step e w') (ht : (w.timer t).Timely) (hsets : ¬ e.Sets t) :
    (w'.timer t).Timely := by
  by_cases htouch : e.Touches w' t
  · cases h with
    | created r hr => exact absurd htouch hsets
    | adjusted hadjust => exact absurd htouch hsets
    | armed s triggered hrow hmade => exact absurd htouch hsets
    | scheduled s triggered hr => exact absurd htouch hsets
    | cancelled s hts => exact (settings_cancelAll w s _ t).timely ht
    | idleStarted s => exact (settings_rouse w _ t).timely ht
    | started htake =>
      obtain rfl : _ = t := htouch
      obtain ⟨kind, S, -, -, -, -, rfl⟩ := take_eq_started htake
      exact timely_withdraw ht _ kind
    | settled s u start =>
      obtain rfl : u = t := htouch
      exact (settings_settle w s u start).timely ht
    | emptied htake =>
      obtain rfl : _ = t := htouch
      obtain ⟨kind, -, -, rfl⟩ := take_eq_idle htake
      exact timely_withdraw ht _ kind
    | _ => exact htouch.elim
  · rw [(h.unchanged htouch).timer]
    exact ht

/-- Along a path all triggers stay normal, if those are that programs set. -/
theorem Path.timely (h : w₁.Path ms w₂) (hw : ∀ t, (w₁.timer t).Timely)
    (hset : ∀ m ∈ ms, ∀ t, m.event.Sets t → (m.world.timer t).Timely) :
    (∀ t, (w₂.timer t).Timely) ∧ ∀ m ∈ ms, ∀ t, (m.world.timer t).Timely := by
  refine h.invariant_of (I := fun w => ∀ t, (w.timer t).Timely) ?_ hset hw
  intro w e w' hstep hset hw t
  by_cases hsets : e.Sets t
  · exact hset t hsets
  · exact hstep.timely (hw t) hsets

/-- A queue is in the order of totals, if the timers in it have normal triggers. -/
theorem Sound.orderedByTotals (h : w.Sound) (hw : ∀ t, (w.timer t).Timely) :
    w.OrderedByTotals := by
  constructor
  · intro s
    refine (h.ordered s).1.imp_of_mem fun {a b} ha _ hle => ?_
    have hmem : (a.item, .onClock a.key) ∈ w.waiting s .active := List.mem_map_of_mem ha
    have hkey : Trigger.Normal (.onClock a.key) := hw a.item _ (h.entry hmem).2
    exact Ticks.total_le_total hkey hle
  · intro s
    refine (h.ordered s).2.imp_of_mem fun {a b} ha _ hle => ?_
    have hmem : (a.item, .afterIdle a.key) ∈ w.waiting s .idle := List.mem_map_of_mem ha
    have hkey : Trigger.Normal (.afterIdle a.key) := hw a.item _ (h.entry hmem).2
    exact Ticks.total_le_total hkey hle

end World

/-- Whatever operations are performed and whatever callbacks do, all queues are in the order of the
totals of their keys as long as programs set normal triggers. -/
theorem Reachable.ordered_by_totals {r : Run} (h : Reachable r)
    (hset : ∀ m ∈ r.journal, ∀ t, m.event.Sets t → (m.world.timer t).Timely) :
    r.world.OrderedByTotals ∧ ∀ m ∈ r.journal, m.world.OrderedByTotals := by
  obtain ⟨w, hfresh, hruns⟩ := h.exists_runsTo
  have hstart : ∀ t, (w.timer t).Timely := by
    intro t trigger htrigger
    rw [hfresh.timer] at htrigger
    cases htrigger
  obtain ⟨hlast, hall⟩ := hruns.path.timely hstart hset
  exact ⟨h.sound.1.orderedByTotals hlast,
    fun m hm => (h.sound.2 m hm).orderedByTotals (hall m hm)⟩

end Timekeeping
