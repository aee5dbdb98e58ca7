import Timekeeping.Proofs.Run.Driving
import Timekeeping.Proofs.Run.Tallies
import Timekeeping.Proofs.Run.Tethers

/-!
A repeating idle timer runs once in each idle period that its loop observes. It is
live when such a stretch of passes begins. The first pass that sees the host idle for
long enough runs it, and then it is triggered up to the end of the stretch.
-/
namespace Timekeeping

/-- A repeating timer is armed for the idle queue of a scheduler, and never else. It is not cancelled
after that, and passes over the scheduler alone start it. -/
structure ArmedOnce (s : SchedulerId) (t : TimerId) (delay : Duration) (journal after : List Moment)
    (arming : Moment) (before : List Moment) : Prop where
  split : journal = after ++ arming :: before
  arms : arming.event.Arms t
  tethered : arming.world.Tethered s t delay
  once : ∀ m ∈ after ++ before, ¬ m.event.Arms t
  stays : ∀ m ∈ after, ¬ m.event.Cancels t
  fired : ∀ {later m earlier}, journal = later ++ m :: earlier → m.event.Starts t →
    PassStarts s t m earlier

/-- One of the passes over the scheduler sees the host idle for as long as the timer waits. -/
def SeesDue (loop : LoopId) (s : SchedulerId) (delay : Duration) (block : List Moment) : Prop :=
  ∃ m ∈ block, (∃ pass, m.event.Begins pass s) ∧
    ∃ idleFor, m.event.sees? loop = some (some idleFor) ∧ delay ≤ idleFor

/-- How often a repeating idle timer runs in a stretch of passes that see the host idle. It is enough
that the stretch begins with a pass over the scheduler, as it does if the loop makes no passes over
others. -/
structure OnceWhileIdle (loop : LoopId) (s : SchedulerId) (t : TimerId) (delay : Duration)
    (arming : Moment) (block earlier : List Moment) : Prop where
  at_most_once : starts t block ≤ 1
  only_if_due : starts t block ≠ 0 → SeesDue loop s delay block
  if_due : arming ∈ earlier → (∃ m ∈ block.getLast?, ∃ pass, m.event.Begins pass s) →
    SeesDue loop s delay block → starts t block = 1
  alone : arming ∈ earlier →
    (∀ m ∈ block, m.event.sees? loop ≠ none → ∃ pass, m.event.Begins pass s) →
    (SeesDue loop s delay block → starts t block = 1) ∧
      (¬ SeesDue loop s delay block → starts t block = 0)

variable {loop : LoopId} {pass : Nat} {s : SchedulerId} {t : TimerId} {delay : Duration} {w : World}
  {r : Run} {later block earlier after before ms ms' : List Moment} {arming m m' p began : Moment}

theorem Event.Arms.not_starts {e : Event} (h : e.Arms t) : ¬ e.Starts t := by
  cases e with
  | armed s u kind triggered => exact id
  | _ => exact h.elim

section Armed

variable (h : w.RunsTo r) (hfresh : w.Fresh)
  (harmed : ArmedOnce s t delay r.journal after arming before)

include h hfresh harmed

theorem ArmedOnce.sound_arming : arming.world.Sound :=
  (h.reachable hfresh).sound.2 arming (by simp [harmed.split])

/-- A timer starts only after it was armed. -/
theorem ArmedOnce.split_of_starts (hjournal : r.journal = ms ++ m :: ms')
    (hstarts : m.event.Starts t) :
    ∃ mid, after = ms ++ m :: mid ∧ ms' = mid ++ arming :: before := by
  have hsplit := harmed.split.symm.trans hjournal
  rcases append_eq_append_cons hsplit with hmid | ⟨l, hold⟩
  · exact hmid
  · have hmem : m ∈ arming :: before := by simp [hold]
    rcases List.mem_cons.mp hmem with rfl | hmem
    · exact absurd hstarts harmed.arms.not_starts
    · have hqueued : (w.timer t).queued = none := by rw [hfresh.timer]
      obtain ⟨hpath, -⟩ := h.path_to harmed.split
      obtain ⟨w', hbefore, -⟩ := (List.singleton_append ▸ hpath).split
      obtain ⟨-, hout⟩ := hbefore.stays_out hfresh.sound hqueued fun m hm =>
        harmed.once m (List.mem_append_right _ hm)
      exact absurd hstarts (hout m hmem).2

theorem ArmedOnce.tethered_after (hm : m ∈ after) : m.world.Tethered s t delay :=
  (((h.path_to harmed.split).2.tethered (harmed.sound_arming h hfresh) harmed.tethered
    harmed.stays).2 m hm)

/-- A timer is triggered when it starts. -/
theorem ArmedOnce.triggered_of_starts (hjournal : r.journal = ms ++ m :: ms')
    (hstarts : m.event.Starts t) : (m.world.timer t).triggered = true := by
  obtain ⟨mid, hafter, -⟩ := harmed.split_of_starts h hfresh hjournal hstarts
  obtain ⟨-, hpath⟩ := h.path_to harmed.split
  rw [hafter] at hpath
  obtain ⟨w', hfirst, -⟩ := hpath.split
  have hsound := harmed.sound_arming h hfresh
  have hkept := harmed.stays m (by simp [hafter])
  cases hfirst with
  | cons hrest hstep =>
    have htethered := hrest.tethered hsound harmed.tethered fun m hm =>
      harmed.stays m (by simp [hafter, hm])
    obtain ⟨-, hflag⟩ := hstep.tethered (hrest.sound hsound).1 htethered.1 hkept
    exact hflag.trans (if_pos hstarts)

/-- The moment before a start is that at which a pass picked the timer. -/
theorem ArmedOnce.picked_of_starts (hjournal : r.journal = ms ++ m :: ms')
    (hstarts : m.event.Starts t) :
    ∃ p rest, ms' = p :: rest ∧ p.event.Picks s t ∧ p.world.Tethered s t delay := by
  obtain ⟨-, p, hp, hpicks⟩ := harmed.fired hjournal hstarts
  obtain ⟨rest, rfl⟩ := List.head?_eq_some_iff.mp hp
  obtain ⟨mid, hafter, hms'⟩ := harmed.split_of_starts h hfresh hjournal hstarts
  refine ⟨p, rest, rfl, hpicks, ?_⟩
  cases mid with
  | nil =>
    obtain ⟨rfl, -⟩ := List.cons_eq_cons.mp hms'
    exact absurd hpicks harmed.arms.not_picks
  | cons p' mid =>
    obtain ⟨rfl, -⟩ := List.cons_eq_cons.mp hms'
    exact harmed.tethered_after h hfresh (by simp [hafter])

/-- Where no idle start is between, a timer starts once. -/
theorem ArmedOnce.starts_le_one (hsplit : r.journal = later ++ (block ++ earlier))
    (hrouses : ∀ m ∈ block, ¬ m.event.Rouses s) : starts t block ≤ 1 := by
  refine Timekeeping.starts_le_one fun l₁ m l₂ hblock hstarts m' hm' hstarts' => ?_
  obtain ⟨l₃, l₄, rfl⟩ := List.append_of_mem hm'
  have hjournal : r.journal = (later ++ l₁) ++ m :: (l₃ ++ m' :: (l₄ ++ earlier)) := by
    rw [hsplit, hblock]
    simp
  have hjournal' : r.journal = ((later ++ l₁) ++ m :: l₃) ++ m' :: (l₄ ++ earlier) := by
    rw [hjournal]
    simp
  obtain ⟨p, rest, hp, hpicks, -⟩ := harmed.picked_of_starts h hfresh hjournal hstarts
  obtain ⟨-, -, began, -, -, trigger, hlive, -⟩ := h.exists_began (by simp [hjournal, hp]) hpicks
  obtain ⟨mid, hafter, -⟩ := harmed.split_of_starts h hfresh hjournal' hstarts'
  have htriggered := harmed.triggered_of_starts h hfresh hjournal' hstarts'
  obtain ⟨-, hpath⟩ := h.path_to hjournal'
  rw [← List.singleton_append, ← List.append_assoc] at hpath
  obtain ⟨w', hfirst, -⟩ := hpath.split
  -- The earlier start triggered the timer, and where it was picked again it was live.
  have hstays := hfirst.stays_triggered ((h.reachable hfresh).sound.2 m' (by simp [hjournal']))
    (harmed.tethered_after h hfresh (by simp [hafter])) htriggered
    (fun m hm => harmed.stays m (by simp [hafter, hm]))
    (fun m hm => hrouses m (by simp [hblock, hm]))
  cases hfirst with
  | nil =>
    obtain ⟨rfl, -⟩ := List.cons_eq_cons.mp hp
    exact hstarts'.not_picks hpicks
  | cons hrest hstep =>
    obtain ⟨rfl, -⟩ := List.cons_eq_cons.mp hp
    cases hlive.1.symm.trans hstays

section Block

variable (hdrives : Drives loop s r.journal) (hsplit : r.journal = later ++ (block ++ earlier))
  (hblock : IdleBlock loop later block earlier)

include hdrives hsplit hblock

/-- A timer that starts in a stretch was due for a pass in it. -/
theorem ArmedOnce.seesDue (hm : m ∈ block) (hstarts : m.event.Starts t) :
    SeesDue loop s delay block := by
  obtain ⟨l₁, l₂, b, hparts, -⟩ := hblock.split_of_unseen hm hstarts.unseen
  have hjournal : r.journal = (later ++ l₁) ++ m :: ((l₂ ++ [b]) ++ earlier) := by
    rw [hsplit, hparts]
    simp
  obtain ⟨p, rest, hp, hpicks, htethered⟩ := harmed.picked_of_starts h hfresh hjournal hstarts
  have hpblock : p ∈ block := by
    rw [hparts]
    cases l₂ with
    | nil =>
      obtain ⟨rfl, -⟩ := List.cons_eq_cons.mp hp
      simp
    | cons p' l₂ =>
      obtain ⟨rfl, -⟩ := List.cons_eq_cons.mp hp
      simp
  have hpmem : p ∈ r.journal := by simp [hsplit, hpblock]
  obtain ⟨pass, hpass, began, hbegan, hbegins, trigger, hlive, hdue⟩ := h.exists_began hpmem hpicks
  have hentry := ((h.reachable hfresh).sound.2 p hpmem).entry htethered.waits
  obtain rfl : _ = trigger := Option.some.inj (hentry.2.symm.trans hlive.2.2)
  obtain ⟨idleFor, hidle, hle⟩ := hdue.le_idleFor rfl
  refine ⟨began, ?_, ⟨pass, hbegins⟩, idleFor, ?_, hle⟩
  · exact hblock.began_mem hdrives hsplit h hpblock hpass hpicks.unseen hbegan hbegins
  · rw [hdrives.sees h hbegan hbegins, hidle]

omit h hfresh hdrives hblock in
/-- A stretch that begins after the arming has come after it. -/
theorem ArmedOnce.mem_after (hearlier : arming ∈ earlier) (hm : m ∈ block) : m ∈ after := by
  obtain ⟨x, y, rfl⟩ := List.append_of_mem hearlier
  have hout : ∀ l : List Moment, (∀ m ∈ l, m ∈ after ++ before) → arming ∉ l :=
    fun l hl hmem => harmed.once arming (hl arming hmem) harmed.arms
  have hjournal : after ++ arming :: before = (later ++ (block ++ x)) ++ arming :: y := by
    rw [← harmed.split, hsplit]
    simp
  obtain ⟨rfl, -, -⟩ := (List.append_cons_inj_of_notMem
    (hout after fun m hm => by simp [hm]) (hout before fun m hm => by simp [hm])).mp hjournal
  simp [hm]

/-- In a stretch that begins after the arming the timer is live until it starts. -/
theorem ArmedOnce.ready (hnew : w.loops.get loop = false) (hearlier : arming ∈ earlier)
    (hfirst : ∃ m ∈ block.getLast?, ∃ pass, m.event.Begins pass s) (hnever : starts t block = 0)
    (hm : m ∈ block) : m.world.Ready s (t, .afterIdle delay) := by
  obtain ⟨b, hb, pass, hbegins⟩ := hfirst
  have hafter : ∀ m ∈ block, m ∈ after := fun m hm => harmed.mem_after hsplit hearlier hm
  obtain ⟨rest, rfl⟩ := List.getLast?_eq_some_iff.mp hb
  have hjournal : r.journal = (later ++ rest) ++ b :: earlier := by
    rw [hsplit]
    simp
  have hbmem : b ∈ r.journal := by simp [hjournal]
  obtain ⟨loop', begun, whole, ms, later', hdrained⟩ := h.drained_of_begins hbmem hbegins
  have hsees := hdrives.sees h hbmem hbegins
  obtain ⟨rfl, -⟩ := Event.sees?_unique hsees hdrained.sees
  -- The pass before the stretch saw the host busy, so the first one of the stretch wakes the timer.
  have hforgot : recalls loop begun.journal = false := by
    obtain ⟨-, heq⟩ := hdrained.swept.split_eq hjournal hbegins
    have hbusy := recalls_of_findSome? hblock.before
    rw [heq, recalls_append_of_unseen fun m hm => World.unseen_of_mem_waking hm] at hbusy
    exact hbusy
  have hwakes := (hdrained.wakes_iff hnew).mpr ⟨hblock.idle b (by simp) _ hsees, hforgot⟩
  have htethered := harmed.tethered_after h hfresh (hafter b (by simp))
  have hlive := hdrained.live hwakes (World.mem_idle_items.mpr ⟨_, htethered.waits⟩)
  refine ⟨?_, (harmed.tethered_after h hfresh (hafter m hm)).waits⟩
  obtain ⟨w', hrest, -⟩ := (h.path_to hjournal).2.split
  have hstays := hrest.stays_untriggered ((h.reachable hfresh).sound.2 b hbmem) htethered hlive
    (fun m hm => harmed.stays m (hafter m (by simp [hm])))
    (fun m hm => starts_eq_zero_iff.mp hnever m (by simp [hm]))
  rcases List.mem_append.mp hm with hm | hm
  · exact hstays m hm
  · obtain rfl := List.mem_singleton.mp hm
    exact hlive

/-- In a stretch that begins after the arming the timer starts once it is due. -/
theorem ArmedOnce.starts_of_due (hnew : w.loops.get loop = false) (hearlier : arming ∈ earlier)
    (hfirst : ∃ m ∈ block.getLast?, ∃ pass, m.event.Begins pass s)
    (hdue : SeesDue loop s delay block) : starts t block ≠ 0 := by
  intro hnever
  have hready : ∀ m ∈ block, m.world.Ready s (t, .afterIdle delay) := fun m hm =>
    harmed.ready h hfresh hdrives hsplit hblock hnew hearlier hfirst hnever hm
  obtain ⟨began, hbegan, ⟨pass, hbegins⟩, idleFor, hsees, hle⟩ := hdue
  have hmem : began ∈ r.journal := by simp [hsplit, hbegan]
  have hidle : began.world.host.idleFor? = some idleFor :=
    Option.some.inj ((hdrives.sees h hmem hbegins).symm.trans hsees)
  have hsound := (h.reachable hfresh).sound.2 began hmem
  -- A due timer that is live all the time is neither passed over nor lost, so its turn comes.
  have hnormal := hdrives.normal began hmem pass hbegins
  have hwaits := (hready began hbegan).2
  have hdue := Snapshot.due_of_le_idleFor hnormal hwaits hidle hle
  have hobserved := Snapshot.observed_ofWorld began.world s began.world.host.idleFor?
  have hmark := Snapshot.mem_marks_ofWorld _ _ _ hwaits hdue
  obtain ⟨loop', begun, whole, ms, later', hdrained⟩ := h.drained_of_begins hmem hbegins
  have hwhole := hdrained.swept.whole_eq_true (hdrives.returned began hmem pass hbegins)
  obtain ⟨after', here, before', hcomes⟩ := hdrained.swept.sweeps.comes hwhole hobserved
    (Snapshot.sorted_ofWorld _ _ _ hsound hnormal) (Snapshot.distinct_ofWorld _ _ _ hsound) hmark
    ((Snapshot.due_iff hobserved hmark).mp hdue)
  have hjournal := hdrained.swept.split hcomes.split
  have hhere : here ∈ r.journal := by simp [hjournal]
  obtain ⟨hlater, hhere', hearlier'⟩ := hblock.own_mem hdrives hsplit h hhere
    hcomes.reaches.pass? hcomes.reaches.unseen hbegan hbegins
  obtain ⟨-, rest, m, hrest, hstarts⟩ := hcomes.starts ((h.reachable hfresh).sound.2 here hhere)
    (hready here hhere')
  rw [hrest, ← List.append_assoc] at hjournal
  have hm := hblock.next_mem hsplit hjournal hlater hearlier' hstarts.unseen
  exact starts_eq_zero_iff.mp hnever m hm hstarts

end Block

end Armed

/-- Whatever else happens, a repeating idle timer that is armed once runs once in each stretch of
passes that see the host idle, if one of them sees it idle for long enough, and else not. -/
theorem World.RunsTo.once_while_idle (h : w.RunsTo r) (hfresh : w.Fresh)
    (hnew : w.loops.get loop = false) (hdrives : Drives loop s r.journal)
    (harmed : ArmedOnce s t delay r.journal after arming before)
    (hsplit : r.journal = later ++ (block ++ earlier))
    (hblock : IdleBlock loop later block earlier) :
    OnceWhileIdle loop s t delay arming block earlier := by
  have honce := harmed.starts_le_one h hfresh hsplit fun m hm =>
    hblock.not_rouses hdrives hsplit hm
  have hnever : ¬ SeesDue loop s delay block → starts t block = 0 := fun hnot =>
    starts_eq_zero_iff.mpr fun m hm hstarts =>
      hnot (harmed.seesDue h hfresh hdrives hsplit hblock hm hstarts)
  have hdue : arming ∈ earlier → (∃ m ∈ block.getLast?, ∃ pass, m.event.Begins pass s) →
      SeesDue loop s delay block → starts t block = 1 := by
    intro hearlier hfirst hdue
    have hsome := harmed.starts_of_due h hfresh hdrives hsplit hblock hnew hearlier hfirst hdue
    omega
  refine ⟨honce, fun hsome => by_contra fun hnot => hsome (hnever hnot), hdue,
    fun hearlier halone => ⟨hdue hearlier ?_, hnever⟩⟩
  obtain ⟨m, hm, hsees⟩ := hblock.first
  exact ⟨m, hm, halone m (List.mem_of_getLast? hm) hsees⟩

section Idling

/-- A run to look at. While the host is idle, three passes see it so: the first one too early for a
repeating timer for one idle second, the second one in time, and the third one after it has run. Then
a pass sees the host busy, and the next one sees it idle again. -/
def idlingRun : Run :=
  performAll (fun _ _ _ _ => .finish .succeeded) 1
    [.scheduleWhenIdle 0 (.relative (.ofSeconds 1)) true ⟨0, none⟩ [],
      .changeHost .goIdle,
      .drain 0 (.named "main"),
      .changeHost (.advance (.ofSeconds 2)),
      .drain 0 (.named "main"),
      .drain 0 (.named "main"),
      .changeHost .goBusy,
      .drain 0 (.named "main"),
      .changeHost .goIdle,
      .changeHost (.advance (.ofSeconds 2)),
      .drain 0 (.named "main")]
    { world := emptyWorld }

theorem runsTo_idlingRun : emptyWorld.RunsTo idlingRun :=
  World.RunsTo.start.performAll _ _ _

attribute [irreducible] idlingRun

/-- The loop drives the scheduler alone. -/
theorem drives_idlingRun : Drives (.named "main") 0 idlingRun.journal where
  own m hm := Event.forall_begins_iff.mpr (by revert m; decide +kernel)
  serial := by
    rw [forall_split_iff]
    intro i hi m hm hsees m' hm'
    refine Event.forall_begins_iff.mpr ?_
    revert i m m'
    decide +kernel
  returned m hm := Event.forall_begins_iff.mpr (by revert m; decide +kernel)
  normal m hm := Event.forall_begins_iff.mpr (by revert m; decide +kernel)
  lasting := by
    rw [forall_split_iff]
    decide +kernel
  rouses := by
    rw [forall_split_iff]
    decide +kernel

/-- The timer is armed first of all. -/
theorem armedOnce_idlingRun : ∃ arming ∈ (idlingRun.journal.drop 11).drop 14,
    ArmedOnce 0 ⟨0⟩ (.ofSeconds 1) idlingRun.journal (idlingRun.journal.take 27) arming
      (idlingRun.journal.drop 28) := by
  obtain ⟨arming, hmem, hsplit⟩ := exists_split_at idlingRun.journal (i := 27)
    (by decide +kernel)
  have hfacts : ∀ m ∈ idlingRun.journal[27]?, m.event.Arms ⟨0⟩ ∧
      m.world.Tethered 0 ⟨0⟩ (.ofSeconds 1) := by
    decide +kernel
  obtain ⟨harms, htethered⟩ := hfacts arming hmem
  refine ⟨arming, ?_, hsplit, harms, htethered, by decide +kernel, by decide +kernel, ?_⟩
  · rw [List.drop_drop]
    exact List.mem_of_getElem? (i := 2) (List.getElem?_drop.trans hmem)
  · rw [forall_split_iff]
    decide +kernel

/-- Three passes that see the host idle are a longest stretch. -/
theorem idleBlock_idlingRun : IdleBlock (.named "main") (idlingRun.journal.take 11)
    ((idlingRun.journal.drop 11).take 14) ((idlingRun.journal.drop 11).drop 14) where
  first := by decide +kernel
  idle := by decide +kernel
  before := by decide +kernel
  after := by decide +kernel

/-- In the first stretch the timer is due for the second pass, and runs once. -/
theorem once_while_idle_idlingRun : ∃ arming ∈ (idlingRun.journal.drop 11).drop 14,
    OnceWhileIdle (.named "main") 0 ⟨0⟩ (.ofSeconds 1) arming
      ((idlingRun.journal.drop 11).take 14) ((idlingRun.journal.drop 11).drop 14) ∧
      SeesDue (.named "main") 0 (.ofSeconds 1) ((idlingRun.journal.drop 11).take 14) ∧
      starts ⟨0⟩ ((idlingRun.journal.drop 11).take 14) = 1 := by
  obtain ⟨arming, hmem, harmed⟩ := armedOnce_idlingRun
  have hsplit : idlingRun.journal = idlingRun.journal.take 11 ++
      ((idlingRun.journal.drop 11).take 14 ++ (idlingRun.journal.drop 11).drop 14) := by
    rw [List.take_append_drop, List.take_append_drop]
  have honce := runsTo_idlingRun.once_while_idle fresh_emptyWorld rfl drives_idlingRun harmed
    hsplit idleBlock_idlingRun
  have hstarts : starts ⟨0⟩ ((idlingRun.journal.drop 11).take 14) = 1 := by decide +kernel
  exact ⟨arming, hmem, honce, honce.only_if_due (by simp [hstarts]), hstarts⟩

end Idling

end Timekeeping
