import Timekeeping.Proofs.Run.Firings
import Timekeeping.Proofs.Run.Neighbours
import Timekeeping.Proofs.Laws.Cancellation
import Timekeeping.Proofs.Laws.Refusals

/-!
Schedulers that share timers. A row says that its timer waits, but not where, so every
scheduler looks for the timer in its own queues before it touches the row. One that does
not find it there refuses or skips the timer and changes nothing. What a scheduler does with
its own timers leaves all others alone, unless its callbacks turn to them.
-/
namespace Timekeeping

open Act World

/-- The scheduler does not take the timer for its own, and whatever it is asked to do with it
changes nothing. -/
structure Declines (call : Caller) (s : SchedulerId) (t : TimerId) (r : Run) : Prop where
  waits : r.world.waits s t = false
  cancel : perform call (.cancel s t) r = .ok (.flag false) r
  fire : perform call (.fire s t) r = .ok (.outcome .skipped) r
  arm : ∀ triggered, perform call (.arm s t triggered) r = .ok (.error (.alreadyActive t.number)) r
  armIdle : ∀ immediate,
    perform call (.armIdle s t immediate) r = .ok (.error (.alreadyActive t.number)) r

/-- The first scheduler leaves the second one and the timers in its queues alone: it declines these
timers, and an operation on it changes nothing there if no step of the operation belongs to the second
scheduler. None does if no callback that other schedulers start performs an operation on that one. -/
structure KeptApart (s s' : SchedulerId) (r : Run) : Prop where
  declines : ∀ call, ∀ t ∈ (r.world.scheduler s').items, Declines call s t r
  sameAt_of_avoids : ∀ behaviour depth operation, operation.scheduler? = some s →
    Run.Avoids s' r (after (execute behaviour depth operation) r) →
      SameAt s' r.world (after (execute behaviour depth operation) r).world
  sameAt_of_within : ∀ behaviour depth operation, operation.scheduler? = some s →
    behaviour.Within (· ≠ s') →
      SameAt s' r.world (after (execute behaviour depth operation) r).world

variable {call : Caller} {r : Run} {s s' : SchedulerId} {t : TimerId}

theorem perform_cancel_of_absent (hmade : r.world.made t = true)
    (habsent : r.world.queueOf? s t = none) :
    perform call (.cancel s t) r = .ok (.flag false) r := by
  rw [perform_cancel_eq hmade, cancel?, habsent]
  rfl

theorem perform_fire_of_absent (hmade : r.world.made t = true)
    (habsent : r.world.queueOf? s t = none) :
    perform call (.fire s t) r = .ok (.outcome .skipped) r := by
  have hskipped := fire_of_absent call habsent
  rw [perform_of_known (.fire s t) hmade]
  unfold performKnown
  dsimp only [bind, EStateM.bind]
  rw [hskipped]
  rfl

/-- What waits in one scheduler is declined by all others. -/
theorem declines_of_mem (call : Caller) (h : r.world.Sound) (ht : t ∈ (r.world.scheduler s').items)
    (hne : s ≠ s') : Declines call s t r := by
  have habsent := h.queueOf?_of_ne ht hne
  have hqueued : r.world.Queued t := ⟨s', ht⟩
  have hmade : r.world.made t = true := h.made (h.queued_ne_none_iff.mpr hqueued)
  exact {
    waits := by
      rw [waits, habsent]
      rfl
    cancel := perform_cancel_of_absent hmade habsent
    fire := perform_fire_of_absent hmade habsent
    arm := fun triggered =>
      (decides_arm call h hmade s triggered).perform_eq (Or.inl ⟨rfl, hqueued⟩)
    armIdle := fun immediate =>
      (decides_armIdle call h hmade s immediate).perform_eq (Or.inl ⟨rfl, hqueued⟩) }

/-- Two schedulers are kept apart in all that can happen, even where they share callbacks. -/
theorem World.Arises.kept_apart (h : r.world.Arises) (hne : s ≠ s') : KeptApart s s' r where
  declines call t ht := declines_of_mem call h.sound ht hne
  sameAt_of_avoids _ _ _ _ havoids := havoids.sameAt h.sound
  sameAt_of_within behaviour depth operation hoperation hwithin := by
    have hon : operation.Within (· ≠ s') := fun s'' hs'' => by
      obtain rfl := Option.some.inj (hoperation.symm.trans hs'')
      exact hne
    exact (Run.avoids_execute hwithin depth hon r).sameAt h.sound

/-- Every callback cancels the timers that have the callback of key 0 in the scheduler that it is handed. -/
def clearing : Behaviour := fun _ _ s _ =>
  .perform none (fun _ => .cancelEvery s ⟨0, none⟩) fun _ => .finish .succeeded

theorem clearing_within (on : SchedulerId → Prop) : clearing.Within on := by
  refine fun key number s args hs => ⟨fun w s' hs' => ?_, fun reply => trivial⟩
  obtain rfl := Option.some.inj hs'
  exact hs

/-- A run in which two schedulers have timers with one callback, due at seconds 2 and 4 in the first and
at second 3 in the second. -/
def sharedRun : Run :=
  performAll clearing 1
    [.schedule 0 (.instant (.ofSeconds 2)) none ⟨0, none⟩ [],
      .schedule 1 (.instant (.ofSeconds 3)) (some (.ofSeconds 1)) ⟨0, none⟩ [],
      .schedule 0 (.instant (.ofSeconds 4)) none ⟨0, none⟩ [],
      .changeHost (.setNow (.ofSeconds 10))]
    { world := emptyWorld }

theorem reachable_sharedRun : Reachable sharedRun :=
  (Reachable.start fresh_emptyWorld).performAll _ _ _

attribute [irreducible] sharedRun

/-- A pass over the first scheduler leaves none of its timers queued and the second one as it is. -/
theorem kept_apart_sharedRun :
    ⟨1⟩ ∈ (sharedRun.world.scheduler 1).items ∧
      Declines (caller clearing 1) 0 ⟨1⟩ sharedRun ∧
      ((after (execute clearing 1 (.drain 0 .poller)) sharedRun).world.scheduler 0).items = [] ∧
      SameAt 1 sharedRun.world (after (execute clearing 1 (.drain 0 .poller)) sharedRun).world := by
  have hapart : KeptApart 0 1 sharedRun := reachable_sharedRun.arises.kept_apart (by decide)
  have hmem : ⟨1⟩ ∈ (sharedRun.world.scheduler 1).items := by decide +kernel
  exact ⟨hmem, hapart.declines _ _ hmem, by decide +kernel,
    hapart.sameAt_of_within clearing 1 (.drain 0 .poller) rfl (clearing_within _)⟩

end Timekeeping
