import Timekeeping.Proofs.Run.Disabling
import Timekeeping.Proofs.Run.Driving

/-!
Timers that are queued without firing are passed over. Such a timer stays triggered and no
pass fires it for as long as it is queued, whichever callbacks run and whichever scheduler
it is queued in. There is one exception. When the callback of a timer that repeats on the
clock queues its own timer in this way, the end of that firing makes the timer live.
-/
namespace Timekeeping

/-- What becomes of a timer that was queued without firing. It stays disabled, and no pass fires it, up
to the end of a firing of it as a repeating timer. Such an end makes it live. -/
structure PassedOver (s : SchedulerId) (t : TimerId) (between : List Moment) (arming : Moment)
    (before : List Moment) : Prop where
  armed : arming.world.Disabled s t
  stays : ∀ {later m earlier}, between = later ++ m :: earlier →
    (∀ m' ∈ m :: earlier, ¬ m'.event.Revives t) →
    m.world.Disabled s t ∧ Unfired t m (earlier ++ arming :: before)
  revived : ∀ {later m earlier}, between = later ++ m :: earlier → m.event.Revives t →
    (∀ m' ∈ earlier, ¬ m'.event.Revives t) → (m.world.timer t).triggered = false

variable {s : SchedulerId} {t : TimerId} {r : Run} {later between before : List Moment}
  {arming : Moment}

/-- A timer that is queued without firing is not fired until it is taken out of its queue, unless a
firing of it as a repeating timer comes to its end meanwhile. -/
theorem Reachable.disabled_timer_passed_over (h : Reachable r)
    (hjournal : r.journal = later ++ (between ++ arming :: before))
    (hdisables : arming.event.Disables s t) (hremoves : ∀ m ∈ between, ¬ m.event.Removes t) :
    PassedOver s t between arming before := by
  obtain ⟨w, hfresh, hruns⟩ := h.exists_runsTo
  obtain ⟨w', hbefore, hbetween⟩ := hruns.path_between hjournal
  have hsound : arming.world.Sound := (hbefore.sound hfresh.sound).1
  have harmed : arming.world.Disabled s t := by
    cases hbefore with
    | cons _ hstep => exact hstep.disabled_of_disables hdisables
  refine ⟨harmed, ?_, ?_⟩
  · intro after m earlier hsplit hrevives
    rw [hsplit] at hbetween
    obtain ⟨w₁, hfirst, -⟩ := hbetween.split
    have hkept : ∀ m' ∈ m :: earlier, ¬ m'.event.Removes t := by
      intro m' hm'
      apply hremoves
      rw [hsplit]
      exact List.mem_append_right _ hm'
    obtain ⟨-, hdisabled⟩ := hfirst.disabled hsound harmed hkept hrevives
    have hplace : r.journal = (later ++ after) ++ (m :: earlier ++ arming :: before) := by
      rw [hjournal, hsplit]
      simp
    have harms : arming.event.Arms t := by
      rw [hdisables.eq]
      rfl
    exact ⟨hdisabled m List.mem_cons_self,
      hruns.unfired hplace harms fun m' hm' _ => (hdisabled m' hm').not_live⟩
  · intro after m earlier hsplit hrevives hfirst
    rw [hsplit] at hbetween
    obtain ⟨w₁, hpath, -⟩ := hbetween.split
    cases hpath with
    | cons hearlier hstep =>
      have hkept : ∀ m' ∈ earlier, ¬ m'.event.Removes t := by
        intro m' hm'
        apply hremoves
        simp [hsplit, hm']
      obtain ⟨hdisabled, -⟩ := hearlier.disabled hsound harmed hkept hfirst
      exact hstep.live_of_revives (hdisabled.queued (hearlier.sound hsound).1) hrevives

section Switching

/-- Each callback cancels its own timer and queues it again without firing. -/
def switchingOff : Behaviour := fun key _ _ _ =>
  .perform none (fun _ => .cancel 0 ⟨key⟩) fun _ =>
    .perform none (fun _ => .arm 0 ⟨key⟩ true) fun _ => .finish .succeeded

/-- A run to look at. At second 1 a pass fires a timer that repeats every second and one that does not
repeat, and the callback of each disables it. The next pass is at second 3. -/
def switchingRun : Run :=
  performAll switchingOff 1
    [.schedule 0 (.instant (.ofSeconds 1)) (some (.ofSeconds 1)) ⟨0, none⟩ [],
      .schedule 0 (.instant (.ofSeconds 1)) none ⟨1, none⟩ [],
      .changeHost (.setNow (.ofSeconds 1)),
      .drain 0 (.named "main"),
      .changeHost (.setNow (.ofSeconds 3)),
      .drain 0 (.named "main")]
    { world := emptyWorld }

theorem reachable_switchingRun : Reachable switchingRun :=
  (Reachable.start fresh_emptyWorld).performAll _ _ _

attribute [irreducible] switchingRun

/-- A stretch of the run after one of its armings. -/
theorem exists_switchingRun_arming {i n : Nat} (hn : n < switchingRun.journal.length) :
    ∃ arming ∈ switchingRun.journal[n]?, switchingRun.journal =
      (switchingRun.journal.take n).take i ++
        ((switchingRun.journal.take n).drop i ++ arming :: switchingRun.journal.drop (n + 1)) := by
  obtain ⟨arming, hmem, hsplit⟩ := exists_split_at switchingRun.journal hn
  refine ⟨arming, hmem, ?_⟩
  rw [← List.append_assoc, List.take_append_drop]
  exact hsplit

/-- The timer that does not repeat stays disabled to the end, though the second pass finds it due. -/
theorem disabled_timer_passed_over_switchingRun : ∃ arming ∈ switchingRun.journal[12]?,
    PassedOver 0 ⟨1⟩ (switchingRun.journal.take 12) arming (switchingRun.journal.drop 13) ∧
      switchingRun.world.Disabled 0 ⟨1⟩ ∧
      ∀ m ∈ switchingRun.journal.take 12, ¬ m.event.Revives ⟨1⟩ ∧ ∀ s, ¬ m.event.Picks s ⟨1⟩ := by
  obtain ⟨arming, harming, hsplit⟩ :=
    exists_switchingRun_arming (i := 0) (n := 12) (by decide +kernel)
  have hdisables : ∀ m ∈ switchingRun.journal[12]?, m.event.Disables 0 ⟨1⟩ := by decide +kernel
  have hquiet : ∀ m ∈ switchingRun.journal.take 12,
      ¬ m.event.Removes ⟨1⟩ ∧ ¬ m.event.Revives ⟨1⟩ := by decide +kernel
  have hpassed := reachable_switchingRun.disabled_timer_passed_over hsplit
    (hdisables arming harming) fun m hm => (hquiet m hm).1
  refine ⟨arming, harming, hpassed, by decide +kernel, fun m hm => ⟨(hquiet m hm).2, fun s => ?_⟩⟩
  obtain ⟨later, earlier, heq⟩ := List.append_of_mem hm
  refine ((hpassed.stays heq fun m' hm' => ?_).2 s).1
  apply (hquiet m' ?_).2
  rw [heq]
  exact List.mem_append_right _ hm'

/-- The timer that repeats is live again when its callback has come back, and the second pass fires
it, which takes it out of its queue. -/
theorem switchingRun_fires_disabled : ∃ later between arming before,
    switchingRun.journal = later ++ (between ++ arming :: before) ∧
      arming.event.Disables 0 ⟨0⟩ ∧ (∀ m ∈ between, ¬ m.event.Removes ⟨0⟩) ∧
      (∃ m ∈ between, (m.world.timer ⟨0⟩).triggered = false) ∧
      (∃ m ∈ between, m.event.Picks 0 ⟨0⟩) ∧
      ∃ m ∈ later.getLast?, PassStarts 0 ⟨0⟩ m between := by
  obtain ⟨arming, harming, hsplit⟩ :=
    exists_switchingRun_arming (i := 6) (n := 17) (by decide +kernel)
  have hdisables : ∀ m ∈ switchingRun.journal[17]?, m.event.Disables 0 ⟨0⟩ := by decide +kernel
  exact ⟨_, _, arming, _, hsplit, hdisables arming harming, by decide +kernel, by decide +kernel,
    by decide +kernel, by decide +kernel⟩

end Switching

end Timekeeping
