import Timekeeping.Proofs.Laws.IdlePeriods
import Timekeeping.Proofs.Run.Dormancy
import Timekeeping.Proofs.Run.Driving

/-!
Timers that are armed for the next idle period while the host is idle. Such a timer
sleeps, and what wakes it is the next idle start of its scheduler. A loop starts an
idle period in its first pass that sees it. So the timer sleeps through the period
that is under way if the loop has already seen that one when the timer is armed. If
it has not, the pass that sees it takes the timer for one that was armed before the
period, and wakes it.
-/
namespace Timekeeping

/-- While the host is idle a timer is armed for the next idle period, and the host stays idle
meanwhile. The timer is not armed again, the loop keeps its memory, and while the loop remembers the
host as idle, nobody else makes the idle timers of the scheduler live. -/
structure DefersIdle (loop : LoopId) (s : SchedulerId) (t : TimerId) (between : List Moment)
    (arming : Moment) (before : List Moment) : Prop where
  arms : arming.event.Defers s t
  idle : arming.world.host.idleFor?.isSome = true
  stays : ∀ m ∈ between, ¬ m.event.EndsIdle
  once : ∀ m ∈ between, ¬ m.event.Arms t
  lasting : ∀ m ∈ between, ¬ m.event.Renews loop
  rouses : ∀ {later m earlier}, between = later ++ m :: earlier → m.event.Rouses s →
    recalls loop (earlier ++ arming :: before) = false

/-- What becomes of the timer in the idle period. It sleeps, and no pass fires it, up to the next idle
start of its scheduler. There is none if the loop had seen the host idle in its last pass before the
arming. Else the first pass of the loop makes the timer live, if it is over the scheduler. -/
structure Deferral (loop : LoopId) (s : SchedulerId) (t : TimerId) (between : List Moment)
    (arming : Moment) (before : List Moment) : Prop where
  sleeps : ∀ {later m earlier}, between = later ++ m :: earlier →
    (∀ m' ∈ m :: earlier, ¬ m'.event.Rouses s) →
    m.world.Dormant s t ∧ Unfired t m (earlier ++ arming :: before)
  noticed : recalls loop before = true → ∀ {later m earlier}, between = later ++ m :: earlier →
    m.world.Dormant s t ∧ Unfired t m (earlier ++ arming :: before)
  unnoticed : recalls loop before = false → ∀ {later began earlier pass},
    between = later ++ began :: earlier → began.event.Begins pass s →
    began.event.sees? loop ≠ none → (∀ m ∈ earlier, m.event.sees? loop = none) →
    t ∈ (began.world.scheduler s).idle.items → (began.world.timer t).triggered = false

variable {loop : LoopId} {pass : Nat} {s : SchedulerId} {t : TimerId} {w : World} {r : Run}
  {later after between earlier before : List Moment} {arming began m : Moment}

theorem DefersIdle.unseen (hdefers : DefersIdle loop s t between arming before)
    (loop' : LoopId) : arming.event.sees? loop' = none ∧ ¬ arming.event.Renews loop' := by
  rw [hdefers.arms.eq]
  exact ⟨rfl, fun hrenews => nomatch hrenews⟩

section Deferring

variable (h : w.RunsTo r) (hjournal : r.journal = later ++ (between ++ arming :: before))
  (hdefers : DefersIdle loop s t between arming before)

include h hjournal hdefers

/-- All passes between see the host idle. -/
theorem DefersIdle.sees_idle (hm : m ∈ between) :
    ∀ idleFor ∈ m.event.sees? loop, idleFor.isSome = true := by
  obtain ⟨w', -, hbetween⟩ := h.path_between hjournal
  exact (hbetween.stays_idle hdefers.idle hdefers.stays).2 m hm

/-- The timer sleeps from its arming on, up to the next idle start, and no pass fires it. -/
theorem DefersIdle.dormant (hfresh : w.Fresh) (hsplit : between = after ++ m :: earlier)
    (hrouses : ∀ m' ∈ m :: earlier, ¬ m'.event.Rouses s) :
    m.world.Dormant s t ∧ Unfired t m (earlier ++ arming :: before) := by
  obtain ⟨w', hbefore, hbetween⟩ := h.path_between hjournal
  have harmed : arming.world.Dormant s t := by
    cases hbefore with
    | cons _ hstep => exact hstep.dormant_of_defers hdefers.arms
  have honce : ∀ m' ∈ m :: earlier, ¬ m'.event.Arms t := by
    intro m' hm'
    exact hdefers.once m' (by rw [hsplit]; exact List.mem_append_right _ hm')
  rw [hsplit] at hbetween
  obtain ⟨w₁, hfirst, -⟩ := hbetween.split
  obtain ⟨-, hdormant⟩ := hfirst.dormant (hbefore.sound hfresh.sound).1 harmed honce hrouses
  have hplace : r.journal = (later ++ after) ++ (m :: earlier ++ arming :: before) := by
    rw [hjournal, hsplit]
    simp
  have harms : arming.event.Arms t := by
    rw [hdefers.arms.eq]
    rfl
  exact ⟨hdormant m List.mem_cons_self,
    h.unfired hplace harms fun m' hm' _ => (hdormant m' hm').not_live⟩

/-- A loop that remembers the host as idle when the timer is armed does so from then on, so no idle
period starts. -/
theorem DefersIdle.not_rouses (hnoticed : recalls loop before = true) (hm : m ∈ between) :
    ¬ m.event.Rouses s := by
  intro hrouses
  obtain ⟨after, earlier, rfl⟩ := List.append_of_mem hm
  have hforgot := hdefers.rouses rfl hrouses
  rw [recalls_append_of_idle
    (fun m' hm' => hdefers.sees_idle h hjournal (by simp [hm']))
    (fun m' hm' => hdefers.lasting m' (by simp [hm'])) (Or.inl ?_)] at hforgot
  · cases hforgot
  · obtain ⟨hsees, hrenews⟩ := hdefers.unseen loop
    rw [recalls, Event.recalls_of_unseen hsees hrenews]
    exact hnoticed

/-- The first pass of a loop that does not remember the host as idle makes the timer live. -/
theorem DefersIdle.wakes (hnew : w.loops.get loop = false) (hunnoticed : recalls loop before = false)
    (hsplit : between = after ++ began :: earlier) (hbegins : began.event.Begins pass s)
    (hsees : began.event.sees? loop ≠ none) (hfirst : ∀ m ∈ earlier, m.event.sees? loop = none)
    (hwaits : t ∈ (began.world.scheduler s).idle.items) :
    (began.world.timer t).triggered = false := by
  have hbegan : began ∈ between := by simp [hsplit]
  have hplace : r.journal = (later ++ after) ++ began :: (earlier ++ arming :: before) := by
    rw [hjournal, hsplit]
    simp
  obtain ⟨loop', begun, whole, ms, later', hdrained⟩ :=
    h.drained_of_begins (by simp [hplace]) hbegins
  obtain ⟨idleFor, hidleFor⟩ := Option.ne_none_iff_exists'.mp hsees
  obtain ⟨rfl, rfl⟩ := Event.sees?_unique hidleFor hdrained.sees
  obtain ⟨-, hearlier⟩ := hdrained.swept.split_eq hplace hbegins
  have hforgot : recalls loop begun.journal = false := by
    have hsame : recalls loop (earlier ++ arming :: before) = recalls loop begun.journal := by
      rw [hearlier]
      exact recalls_append_of_unseen fun m hm => World.unseen_of_mem_waking hm
    obtain ⟨hunseen, hrenews⟩ := hdefers.unseen loop
    rw [← hsame, recalls_append_of_unseen fun m hm =>
      ⟨hfirst m hm, hdefers.lasting m (by simp [hsplit, hm])⟩, recalls,
      Event.recalls_of_unseen hunseen hrenews]
    exact hunnoticed
  have hidle := hdefers.sees_idle h hjournal hbegan _ hidleFor
  exact hdrained.live ((hdrained.wakes_iff hnew).mpr ⟨hidle, hforgot⟩) hwaits

/-- A timer that is armed for the next idle period while the host is idle is not run before its loop
starts an idle period. It sleeps through the one that is under way if the loop has seen that already,
and is made live in it if not. -/
theorem World.RunsTo.deferred_idle_arming (hfresh : w.Fresh) (hnew : w.loops.get loop = false) :
    Deferral loop s t between arming before where
  sleeps hsplit hrouses := hdefers.dormant h hjournal hfresh hsplit hrouses
  noticed hnoticed _ _ _ hsplit := by
    refine hdefers.dormant h hjournal hfresh hsplit fun m' hm' =>
      hdefers.not_rouses h hjournal hnoticed ?_
    rw [hsplit]
    exact List.mem_append_right _ hm'
  unnoticed hunnoticed _ _ _ _ hsplit hbegins hsees hfirst hwaits :=
    hdefers.wakes h hjournal hnew hunnoticed hsplit hbegins hsees hfirst hwaits

end Deferring

section Late

/-- A run to look at. While the host is idle, a timer is armed for the next idle period, before a loop
has made a pass. The first pass wakes it and fires it. Then another timer is armed in the same way, and
the second pass leaves it asleep. -/
def lateRun : Run :=
  performAll (fun _ _ _ _ => .finish .succeeded) 1
    [.changeHost .goIdle,
      .create,
      .adjust ⟨0⟩ (.idleTime (.ofSeconds 1) false),
      .adjust ⟨0⟩ (.function ⟨0, none⟩ []),
      .armIdle 0 ⟨0⟩ false,
      .changeHost (.advance (.ofSeconds 2)),
      .drain 0 (.named "main"),
      .create,
      .adjust ⟨1⟩ (.idleTime (.ofSeconds 1) false),
      .adjust ⟨1⟩ (.function ⟨1, none⟩ []),
      .armIdle 0 ⟨1⟩ false,
      .changeHost (.advance (.ofSeconds 2)),
      .drain 0 (.named "main")]
    { world := emptyWorld }

theorem runsTo_lateRun : emptyWorld.RunsTo lateRun :=
  World.RunsTo.start.performAll _ _ _

attribute [irreducible] lateRun

/-- A stretch of the run after one of its armings. -/
theorem defersIdle_lateRun {t : TimerId} {i n : Nat} (hn : n < lateRun.journal.length)
    (hfacts : ∀ m ∈ lateRun.journal[n]?, m.event.Defers 0 t ∧
      m.world.host.idleFor?.isSome = true)
    (hquiet : ∀ m ∈ (lateRun.journal.take n).drop i, ¬ m.event.EndsIdle ∧ ¬ m.event.Arms t ∧
      ¬ m.event.Renews (.named "main"))
    (hrouses : ∀ j < ((lateRun.journal.take n).drop i).length,
      ∀ m ∈ ((lateRun.journal.take n).drop i)[j]?, m.event.Rouses 0 →
      recalls (.named "main") (((lateRun.journal.take n).drop i).drop (j + 1) ++
        lateRun.journal.drop n) = false) :
    ∃ arming, lateRun.journal = (lateRun.journal.take n).take i ++
        ((lateRun.journal.take n).drop i ++ arming :: lateRun.journal.drop (n + 1)) ∧
      DefersIdle (.named "main") 0 t ((lateRun.journal.take n).drop i) arming
        (lateRun.journal.drop (n + 1)) := by
  obtain ⟨arming, hmem, hsplit⟩ := exists_split_at lateRun.journal hn
  obtain ⟨hdefers, hidle⟩ := hfacts arming hmem
  refine ⟨arming, ?_, hdefers, hidle, fun m hm => (hquiet m hm).1, fun m hm => (hquiet m hm).2.1,
    fun m hm => (hquiet m hm).2.2, ?_⟩
  · rw [← List.append_assoc, List.take_append_drop]
    exact hsplit
  · have hplace : lateRun.journal[n] = arming :=
      Option.some.inj ((List.getElem?_eq_getElem hn).symm.trans hmem)
    rw [forall_split_iff, ← hplace, ← List.drop_eq_getElem_cons hn]
    exact hrouses

/-- The second timer is armed when the loop has seen the host idle. It sleeps through the next pass,
which sees the host idle for longer than the timer waits. -/
theorem deferred_idle_arming_lateRun : ∃ arming : Moment,
    DefersIdle (.named "main") 0 ⟨1⟩ (lateRun.journal.take 4) arming (lateRun.journal.drop 5) ∧
      Deferral (.named "main") 0 ⟨1⟩ (lateRun.journal.take 4) arming (lateRun.journal.drop 5) ∧
      recalls (.named "main") (lateRun.journal.drop 5) = true ∧
      ∃ began ∈ lateRun.journal.take 4, began.event.Begins 1 0 ∧
        began.event.sees? (.named "main") = some (some (.ofSeconds 4)) := by
  obtain ⟨arming, hsplit, hdefers⟩ := defersIdle_lateRun (t := ⟨1⟩) (i := 0) (n := 4)
    (by decide +kernel) (by decide +kernel) (by decide +kernel) (by decide +kernel)
  have hdeferral := runsTo_lateRun.deferred_idle_arming hsplit hdefers fresh_emptyWorld rfl
  exact ⟨arming, hdefers, hdeferral, by decide +kernel, by decide +kernel⟩

/-- The first timer is armed before the loop has made a pass. The first one fires it, in the idle
period in which it was armed. -/
theorem lateRun_runs_deferred : ∃ later between arming before,
    lateRun.journal = later ++ (between ++ arming :: before) ∧
      DefersIdle (.named "main") 0 ⟨0⟩ between arming before ∧
      (∃ m ∈ between, m.event.Picks 0 ⟨0⟩) ∧
      ∃ ms ∈ between.tails, ∃ m ∈ ms.head?, PassStarts 0 ⟨0⟩ m ms.tail := by
  obtain ⟨arming, hsplit, hdefers⟩ := defersIdle_lateRun (t := ⟨0⟩) (i := 10) (n := 16)
    (by decide +kernel) (by decide +kernel) (by decide +kernel) (by decide +kernel)
  exact ⟨_, _, arming, _, hsplit, hdefers, by decide +kernel, by decide +kernel⟩

end Late

end Timekeeping
