import Timekeeping.Proofs.Run.Sweeps

/-!
When a pass makes idle timers live. A loop remembers whether its last pass saw the
host idle, and no more. So the first pass that sees the host idle after one that saw
it busy makes them live, and no later one does while the host stays idle. An idle
period that begins when the loop last saw the host idle, in an earlier one, is taken
for that one: what has fired in it does not become live.
-/
namespace Timekeeping

open Act

namespace Event

/-- Whether the host becomes idle or busy. -/
def idle? : Event → Option Bool
  | hostChanged .goIdle => some true
  | hostChanged .goBusy => some false
  | _ => none

def BeginsIdle (e : Event) : Prop := e.idle? = some true

def EndsIdle (e : Event) : Prop := e.idle? = some false

instance (e : Event) : Decidable e.BeginsIdle := inferInstanceAs (Decidable (e.idle? = some true))

instance (e : Event) : Decidable e.EndsIdle := inferInstanceAs (Decidable (e.idle? = some false))

end Event

namespace World

variable {loop : LoopId} {e : Event} {w w' w₁ w₂ : World} {ms : List Moment}

theorem Step.beginsIdle (h : w.Step e w') (hbegins : e.BeginsIdle) :
    w'.host.idleFor?.isSome = true := by
  cases h with
  | hostChanged change =>
    cases change with
    | goIdle => rfl
    | _ => cases hbegins
  | _ => cases hbegins

theorem Step.stays_idle (h : w.Step e w') (hidle : w.host.idleFor?.isSome = true)
    (hends : ¬ e.EndsIdle) : w'.host.idleFor?.isSome = true := by
  rw [h.framed.host]
  cases e with
  | hostChanged change =>
    have hsince : w.host.idleness.since.isSome = true := by
      simpa [Host.idleFor?, Idleness.elapsed?] using hidle
    cases change with
    | goBusy => exact absurd rfl hends
    | goIdle => rfl
    | _ => simpa [Event.hostAfter, Host.apply, Host.idleFor?, Idleness.elapsed?] using hsince
  | _ => exact hidle

/-- While the host stays idle, all passes see it so. -/
theorem Path.stays_idle (h : w₁.Path ms w₂) (hidle : w₁.host.idleFor?.isSome = true)
    (hends : ∀ m ∈ ms, ¬ m.event.EndsIdle) : w₂.host.idleFor?.isSome = true ∧
      ∀ m ∈ ms, ∀ idleFor ∈ m.event.sees? loop, idleFor.isSome = true := by
  induction h with
  | nil => exact ⟨hidle, fun _ hm => absurd hm List.not_mem_nil⟩
  | cons _ hstep ih =>
    obtain ⟨hidle', hall⟩ := ih fun m hm => hends m (List.mem_cons_of_mem _ hm)
    refine ⟨hstep.stays_idle hidle' (hends _ List.mem_cons_self), fun m hm idleFor hsees => ?_⟩
    rcases List.mem_cons.mp hm with rfl | hm
    · rw [hstep.sees hsees]
      exact hidle'
    · exact hall m hm idleFor hsees

end World

/-- The host is idle from the moment `start` on, in which that began, and after those that follow. -/
structure IdleSince (start : Moment) (between : List Moment) : Prop where
  begins : start.event.BeginsIdle
  stays : ∀ m ∈ between, ¬ m.event.EndsIdle

/-- How a pass of a loop over a scheduler begins, when it was begun after the moments `before`. If
the loop sees the host idle and does not remember it so, all timers of the idle queue become live.
The first pass in an idle period finds what the loop remembered before the period; later ones find
that it remembers the period. -/
structure Opening (loop : LoopId) (s : SchedulerId) (idleFor : Option Duration) (began : Moment)
    (earlier before : List Moment) : Prop where
  sees : idleFor = began.world.host.idleFor?
  wakes : idleFor.isSome = true → recalls loop before = false →
    (∃ woken, earlier = ⟨.idleStarted s, woken⟩ :: before) ∧
      ∀ t ∈ (began.world.scheduler s).idle.items, (began.world.timer t).triggered = false
  rests : idleFor = none ∨ recalls loop before = true → earlier = before
  first : ∀ {between start old}, before = between ++ start :: old → IdleSince start between →
    (∀ m ∈ between, m.event.sees? loop = none ∧ ¬ m.event.Renews loop) →
    idleFor.isSome = true ∧ recalls loop before = recalls loop old
  again : ∀ {between start old}, before = between ++ start :: old → IdleSince start between →
    (∃ m ∈ between, m.event.sees? loop ≠ none) → (∀ m ∈ between, ¬ m.event.Renews loop) →
    idleFor.isSome = true ∧ earlier = before

variable {loop : LoopId} {pass : Nat} {s : SchedulerId} {idleFor : Option Duration} {w : World}
  {r : Run} {began start : Moment} {later earlier between old : List Moment}

/-- While the host stays idle after a moment of a run, every loop sees it so. -/
theorem World.Path.idleSince {w' : World} (h : w.Path (between ++ start :: old) w')
    (hsince : IdleSince start between) (loop : LoopId) : w'.host.idleFor?.isSome = true ∧
      ∀ m ∈ between, ∀ idleFor ∈ m.event.sees? loop, idleFor.isSome = true := by
  obtain ⟨w₁, hfirst, hrest⟩ := h.split
  cases hfirst with
  | cons _ hstep => exact hrest.stays_idle (hstep.beginsIdle hsince.begins) hsince.stays

theorem Event.BeginsIdle.unseen {e : Event} (h : e.BeginsIdle) (loop : LoopId) (before : Bool) :
    e.recalls loop before = before := by
  cases e with
  | hostChanged change => rfl
  | _ => cases h

/-- A pass makes idle timers live if its loop sees the host idle and did not in its last pass. If it
did, it does not, though the host may have been busy meanwhile. -/
theorem World.RunsTo.idle_timers_woken (h : w.RunsTo r) (hnew : w.loops.get loop = false)
    (hjournal : r.journal = later ++ began :: earlier) (hbegins : began.event.Begins pass s)
    (hsees : began.event.sees? loop = some idleFor) :
    ∃ before, Opening loop s idleFor began earlier before := by
  obtain ⟨loop', begun, whole, ms, later', hdrained⟩ :=
    h.drained_of_begins (by simp [hjournal]) hbegins
  obtain ⟨-, rfl⟩ := hdrained.swept.split_eq hjournal hbegins
  obtain ⟨rfl, rfl⟩ := Event.sees?_unique hsees hdrained.sees
  have hwakes := hdrained.wakes_iff hnew
  have hrests : began.world.host.idleFor? = none ∨ recalls loop begun.journal = true →
      begun.world.waking s loop ++ begun.journal = begun.journal := by
    intro hrests
    have hasleep : ¬ begun.world.wakes loop = true := by
      rw [hwakes]
      rintro ⟨hidle, hforgot⟩
      rcases hrests with hnone | hrecalls
      · simp [hnone] at hidle
      · simp [hrecalls] at hforgot
    unfold World.waking
    rw [if_neg hasleep]
    rfl
  refine ⟨begun.journal, rfl, fun hidle hforgot => ⟨⟨begun.world.startIdle s, ?_⟩, fun t ht => ?_⟩,
    hrests, ?_, ?_⟩
  · unfold World.waking
    rw [if_pos (hwakes.mpr ⟨hidle, hforgot⟩)]
    rfl
  · exact hdrained.live (hwakes.mpr ⟨hidle, hforgot⟩) ht
  · intro between start old hbefore hsince hunseen
    refine ⟨?_, ?_⟩
    · rw [hdrained.host_eq]
      exact ((hbefore ▸ hdrained.path).idleSince hsince loop).1
    · rw [hbefore, recalls_append_of_unseen hunseen, recalls, hsince.begins.unseen]
  · intro between start old hbefore hsince hpassed hrenews
    obtain ⟨hidle, hall⟩ := (hbefore ▸ hdrained.path).idleSince hsince loop
    refine ⟨hdrained.host_eq ▸ hidle, hrests (Or.inr ?_)⟩
    rw [hbefore]
    exact recalls_append_of_idle hall hrenews (Or.inr hpassed)

section Relapsing

/-- A run to look at. A pass fires a repeating timer for one idle second. Then the host is busy for a
while in which there is no pass, and idle again when the next one begins. -/
def relapsingRun : Run :=
  performAll (fun _ _ _ _ => .finish .succeeded) 1
    [.scheduleWhenIdle 0 (.relative (.ofSeconds 1)) true ⟨0, none⟩ [],
      .changeHost .goIdle,
      .changeHost (.advance (.ofSeconds 2)),
      .drain 0 (.named "main"),
      .changeHost .goBusy,
      .changeHost .goIdle,
      .changeHost (.advance (.ofSeconds 2)),
      .drain 0 (.named "main")]
    { world := emptyWorld }

theorem runsTo_relapsingRun : emptyWorld.RunsTo relapsingRun :=
  World.RunsTo.start.performAll _ _ _

attribute [irreducible] relapsingRun

/-- The first pass makes the timer live. -/
theorem idle_timers_woken_relapsingRun : ∃ began before,
    relapsingRun.journal =
      relapsingRun.journal.take 11 ++ began :: relapsingRun.journal.drop 12 ∧
      Opening (.named "main") 0 (some (.ofSeconds 2)) began (relapsingRun.journal.drop 12)
        before := by
  obtain ⟨began, hmem, hsplit⟩ := exists_split_at relapsingRun.journal (i := 11)
    (by decide +kernel)
  have hfacts : ∀ m ∈ relapsingRun.journal[11]?, m.event.Begins 0 0 ∧
      m.event.sees? (.named "main") = some (some (.ofSeconds 2)) := by decide +kernel
  obtain ⟨hbegins, hsees⟩ := hfacts began hmem
  obtain ⟨before, hopening⟩ :=
    runsTo_relapsingRun.idle_timers_woken rfl hsplit hbegins hsees
  exact ⟨began, before, hsplit, hopening⟩

/-- The second pass is the first one in an idle period, which began when the host was busy. It leaves
the timer triggered, though it sees the host idle for longer than the timer waits. -/
theorem relapsingRun_stays_triggered : ∃ later began between start old,
    relapsingRun.journal = later ++ began :: (between ++ start :: old) ∧
      IdleSince start between ∧ (∀ m ∈ old.head?, m.world.host.idleFor? = none) ∧
      (∀ m ∈ between, m.event.sees? (.named "main") = none) ∧ began.event.Begins 1 0 ∧
      began.event.sees? (.named "main") = some (some (.ofSeconds 2)) ∧
      ∃ t ∈ (began.world.scheduler 0).idle.items, (began.world.timer t).triggered = true := by
  obtain ⟨began, hbegan, hsplit⟩ := exists_split_at relapsingRun.journal (i := 2)
    (by decide +kernel)
  obtain ⟨start, hstart, hsplit'⟩ := exists_split_at (relapsingRun.journal.drop 3) (i := 1)
    (by decide +kernel)
  have hfacts : ∀ m ∈ relapsingRun.journal[2]?, m.event.Begins 1 0 ∧
      m.event.sees? (.named "main") = some (some (.ofSeconds 2)) ∧
      ∃ t ∈ (m.world.scheduler 0).idle.items, (m.world.timer t).triggered = true := by
    decide +kernel
  have hbegins : ∀ m ∈ (relapsingRun.journal.drop 3)[1]?, m.event.BeginsIdle := by decide +kernel
  rw [hsplit'] at hsplit
  refine ⟨_, began, _, start, _, hsplit, ⟨hbegins start hstart, ?_⟩, ?_, ?_, hfacts began hbegan⟩
  · decide +kernel
  · decide +kernel
  · decide +kernel

end Relapsing

end Timekeeping
