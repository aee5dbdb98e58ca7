import Timekeeping.Proofs.Run.Firings
import Timekeeping.Proofs.Run.Neighbours

/-!
Timers that wait are complete. Only a timer with a callback and with a trigger of the right
kind can be queued, and its settings stay as they are until it has left its queue. So a firing
never finds a timer without a callback or a trigger, and a listing never has to guess a queue.
-/
namespace Timekeeping

open Act

namespace World

/-- The summary of a timer that is queued under a trigger. -/
def summary (w : World) (kind : QueueKind) (entry : TimerId × Trigger) : TimerSummary where
  timer := entry.1
  queue := kind
  trigger := some entry.2
  interval := (w.timer entry.1).interval
  triggered := (w.timer entry.1).triggered
  aligned := (w.timer entry.1).aligned
  callback := (w.timer entry.1).callback.bind Callback.name

/-- The timer has what the queues of the kind ask of their timers. -/
structure Equipped (w : World) (kind : QueueKind) (t : TimerId) (trigger : Trigger) : Prop where
  fits : trigger.kind = kind
  queued : (w.timer t).queued = some kind
  trigger : (w.timer t).trigger = some trigger
  callback : (w.timer t).callback ≠ none

/-- Nothing is missing in the rows of timers that wait. A firing skips just the timers that do not wait
in its scheduler, and a listing shows the entries of the queues as they are. -/
structure Complete (w : World) : Prop where
  entry : ∀ {s kind t trigger}, (t, trigger) ∈ w.waiting s kind → w.Equipped kind t trigger
  row : ∀ {t kind}, (w.timer t).queued = some kind →
    ∃ s trigger, (t, trigger) ∈ w.waiting s kind ∧ w.Equipped kind t trigger
  take : ∀ s t w', w.take s t ≠ .idle w'
  skips : ∀ {call s t} {r r' : Run}, r.world = w →
    (fire call s t r = .ok .skipped r' ↔ t ∉ (w.scheduler s).items ∧ r' = r)
  listing : ∀ s, w.listing s =
    (w.waiting s .active).map (w.summary .active) ++ (w.waiting s .idle).map (w.summary .idle)

variable {w w' w₁ w₂ : World} {e : Event} {s : SchedulerId} {t : TimerId} {kind : QueueKind}
  {trigger : Trigger} {ms : List Moment}

theorem Sound.equipped (h : w.Sound) (ht : (t, trigger) ∈ w.waiting s kind) :
    w.Equipped kind t trigger := by
  obtain ⟨hqueued, htrigger⟩ := h.entry ht
  exact ⟨Scheduler.kind_of_mem_waiting ht, hqueued, htrigger, h.callback (by simp [hqueued])⟩

theorem Sound.take_ne_idle (h : w.Sound) (s : SchedulerId) (t : TimerId) (w' : World) :
    w.take s t ≠ .idle w' := by
  intro htake
  obtain ⟨kind, hkind, hnone, -⟩ := take_eq_idle htake
  obtain ⟨hqueued, -⟩ := (queueOf?_eq_some_iff w s t kind).mp hkind
  exact h.callback (by simp [hqueued]) hnone

/-- What is listed for an entry of a queue is what the entry says. -/
theorem Equipped.ofTimer_eq (h : w.Equipped kind t trigger) :
    TimerSummary.ofTimer t (w.timer t) = w.summary kind (t, trigger) := by
  simp [TimerSummary.ofTimer, summary, h.queued, h.trigger]

theorem Sound.listing_eq (h : w.Sound) (s : SchedulerId) : w.listing s =
    (w.waiting s .active).map (w.summary .active) ++
      (w.waiting s .idle).map (w.summary .idle) := by
  have hkind : ∀ kind, ((w.waiting s kind).map Prod.fst).map (fun t => .ofTimer t (w.timer t)) =
      (w.waiting s kind).map (w.summary kind) := by
    intro kind
    rw [List.map_map]
    exact List.map_congr_left fun x hx => (h.equipped hx).ofTimer_eq
  unfold listing
  rw [List.map_append, ← map_fst_waiting_active, ← map_fst_waiting_idle, hkind, hkind]

/-- No step takes a timer out that has no callback. -/
theorem Step.ne_emptied (h : w.Step e w') (hw : w.Sound) (s : SchedulerId) (t : TimerId) :
    e ≠ .emptied s t := by
  rintro rfl
  cases h with
  | emptied htake => exact hw.take_ne_idle s t w' htake

theorem Path.ne_emptied (h : w₁.Path ms w₂) (hw : w₁.Sound) (s : SchedulerId) (t : TimerId) :
    ∀ m ∈ ms, m.event ≠ .emptied s t := by
  induction h with
  | nil => exact fun m hm => absurd hm List.not_mem_nil
  | cons hrest hstep ih =>
    intro m hm
    rcases List.mem_cons.mp hm with rfl | hm
    · exact hstep.ne_emptied (hrest.sound hw).1 s t
    · exact ih m hm

end World

theorem World.Sound.fire_eq_skipped_iff {call : Caller} {s : SchedulerId} {t : TimerId} {r r' : Run}
    (h : r.world.Sound) :
    fire call s t r = .ok .skipped r' ↔ t ∉ (r.world.scheduler s).items ∧ r' = r := by
  rw [h.mem_items_iff, not_not]
  constructor
  · intro hfire
    cases htake : r.world.take s t with
    | absent =>
      have habsent := take_eq_absent_iff.mp htake
      cases (fire_of_absent call habsent).symm.trans hfire
      exact ⟨habsent, rfl⟩
    | idle w => exact absurd htake (h.take_ne_idle s t w)
    | started start w =>
      rw [fire_of_take htake] at hfire
      split at hfire
      · next ending back _ =>
        have hskipped := FiringOutcome.ofEnding_ne_skipped t start.callback ending
        exact absurd (EStateM.Result.ok.inj hfire).1 hskipped
      · cases hfire
  · rintro ⟨habsent, rfl⟩
    exact fire_of_absent call habsent

theorem World.Sound.complete {w : World} (h : w.Sound) : w.Complete where
  entry := h.equipped
  row hqueued := by
    obtain ⟨s, trigger, hmem⟩ := h.queued hqueued
    exact ⟨s, trigger, hmem, h.equipped hmem⟩
  take := h.take_ne_idle
  skips hworld := by
    subst hworld
    exact h.fire_eq_skipped_iff
  listing := h.listing_eq

/-- Timers that wait are complete at every moment of a run, and no firing finds one without a
callback. -/
theorem Reachable.timers_complete {r : Run} (h : Reachable r) :
    r.world.Complete ∧
      ∀ m ∈ r.journal, m.world.Complete ∧ ∀ s t, m.event ≠ .emptied s t := by
  obtain ⟨w, hfresh, hpath⟩ := h.path
  obtain ⟨hend, hall⟩ := h.sound
  refine ⟨hend.complete, fun m hm => ⟨(hall m hm).complete, fun s t => ?_⟩⟩
  exact hpath.ne_emptied hfresh.sound s t m hm

/-- Four timers wait in one scheduler before the first of them is fired. -/
theorem timers_complete_sampleRun :
    (∀ m ∈ sampleRun.journal, m.world.Complete ∧ ∀ s t, m.event ≠ .emptied s t) ∧
      ∃ m ∈ sampleRun.journal,
        (m.world.listing 0).map (fun e => (e.timer, e.queue, e.trigger)) =
          [(⟨0⟩, .active, some (.onClock (.ofSeconds 2))),
            (⟨1⟩, .active, some (.onClock (.ofSeconds 5))),
            (⟨3⟩, .active, some (.onClock (.ofSeconds 6))),
            (⟨2⟩, .idle, some (.afterIdle (.ofSeconds 4)))] :=
  ⟨reachable_sampleRun.timers_complete.2, by decide +kernel⟩

end Timekeeping
