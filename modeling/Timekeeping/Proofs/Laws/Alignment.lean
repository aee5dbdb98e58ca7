import Timekeeping.Proofs.Laws.Conservation
import Timekeeping.Proofs.Run.Settings
import Timekeeping.Proofs.Time.Multiples

/-!
Timers whose repeats fall on multiples of their interval. Such a timer is made for
the first multiple after its making, and each firing moves it to the first multiple
after that firing, whatever it was due at before. Nothing else moves it. So its key
stays on the grid however the clock moves and however late or early it is fired.
-/
namespace Timekeeping

open Act

/-- The timer fires at the given instant, and its repeats fall on multiples of the interval. -/
structure Timer.OnGrid (r : Timer) (interval : Duration) (key : Instant) : Prop where
  trigger : r.trigger = some (.onClock key)
  interval : r.interval = some interval
  aligned : r.aligned = true

/-- An operation makes a timer for the next multiple of an interval, with or without queueing it. -/
inductive MakesAligned (t : TimerId) (interval : Duration) (r r' : Run) : Prop
  | prepare {call : Caller} {s : SchedulerId} {callback : Callback} {args : List Json}
      (h : perform call (.prepare s .nextMultiple (some interval) callback args) r =
        .ok (.timer t) r')
  | schedule {call : Caller} {s : SchedulerId} {callback : Callback} {args : List Json}
      (h : perform call (.schedule s .nextMultiple (some interval) callback args) r =
        .ok (.timer t) r')

/-- What becomes of a timer that was made for multiples of an interval in the world `made`. Its first
key is the first multiple then, and all keys are multiples. When it fires it is queued again for the
first multiple after that. All this holds as long as the multiples that it is moved to can be
stored. -/
structure KeepsAligned (t : TimerId) (interval : Duration) (made : World) (later : List Moment) :
    Prop where
  positive : interval.IsPositive
  first : ∃ key, (made.timer t).trigger = some (.onClock key) ∧
    (Ticks.Representable (made.host.now.multipleAfter interval) →
      made.host.now.FirstMultiple interval key)
  multiple : ∀ {ms m earlier}, later = ms ++ m :: earlier →
    Ticks.Representable (made.host.now.multipleAfter interval) →
    (∀ m' ∈ m :: earlier, m'.event.Starts t →
      Ticks.Representable (m'.world.host.now.multipleAfter interval)) →
    ∃ key, (m.world.timer t).trigger = some (.onClock key) ∧ interval.total ∣ key.total ∧
      ∀ s kind trigger, (t, trigger) ∈ m.world.waiting s kind → trigger = .onClock key
  requeued : ∀ {m s kind callback call args}, m ∈ later →
    m.event = .started s t kind callback call args →
    ∃ key, (t, .onClock key) ∈ m.world.waiting s .active ∧
      (Ticks.Representable (m.world.host.now.multipleAfter interval) →
        m.world.host.now.FirstMultiple interval key)

theorem Timer.OnGrid.of_same {r r' : Timer} {interval : Duration} {key : Instant}
    (h : r.OnGrid interval key) (hsame : r.SameSettings r') : r'.OnGrid interval key :=
  ⟨hsame.trigger.trans h.trigger, hsame.interval.trans h.interval, hsame.aligned.trans h.aligned⟩

variable {t : TimerId} {interval : Duration} {s : SchedulerId} {w w' w₁ w₂ : World} {e : Event}
  {key : Instant} {r r₁ r₂ : Run} {ms later : List Moment}

namespace World

/-- Only a positive interval has multiples, and the timer is made for the first one after now. -/
theorem prepare_nextMultiple_eq_ok {callback : Callback} {args : List Json}
    (h : w.prepare s .nextMultiple (some interval) callback args = .ok (t, w')) :
    interval.IsPositive ∧ t = ⟨w.created⟩ ∧ ∃ row : Timer, w' = (w.create row).2 ∧
      row.OnGrid interval (.ofTotal (w.host.now.multipleAfter interval)) := by
  unfold prepare at h
  by_cases hpositive : interval.IsPositive
  · have hfilter : (some interval).filter (fun i => ¬ i.IsPositive) = none := by
      simp [Option.filter, hpositive]
    have hresolve : Timing.nextMultiple.resolve w.host.now (w.scheduler s).offset (some interval) =
        .ok (.ofTotal (w.host.now.multipleAfter interval)) := by
      unfold Timing.resolve
      simp only [Option.bind_some, Instant.nextAligned?_eq hpositive]
    rw [hfilter, hresolve] at h
    cases h
    exact ⟨hpositive, rfl, _, rfl, rfl, rfl, rfl⟩
  · have hfilter : (some interval).filter (fun i => ¬ i.IsPositive) = some interval := by
      simp [Option.filter, hpositive]
    rw [hfilter] at h
    cases h

theorem schedule_nextMultiple_eq_ok {callback : Callback} {args : List Json}
    (h : w.schedule s .nextMultiple (some interval) callback args = .ok (t, w')) :
    interval.IsPositive ∧ t = ⟨w.created⟩ ∧ ∃ (row : Timer) (trigger : Trigger),
      w' = (w.create row).2.enqueue s t trigger false ∧
        row.OnGrid interval (.ofTotal (w.host.now.multipleAfter interval)) := by
  obtain ⟨⟨u, w₁⟩, hprepare, harm⟩ := Except.exists_of_bind_eq_ok h
  obtain ⟨hpositive, rfl, row, rfl, hrow⟩ := prepare_nextMultiple_eq_ok hprepare
  dsimp only at harm
  split at harm
  · rename_i w₂ harm'
    cases harm
    obtain ⟨time, -, rfl⟩ := arm_eq_ok harm'
    exact ⟨hpositive, rfl, row, _, rfl, hrow⟩
  · cases harm

/-- A firing moves the timer to the first multiple after it. -/
theorem Step.next_on_grid {kind : QueueKind} {callback : Callback} {call : Nat} {args : List Json}
    (h : w.Step (.started s t kind callback call args) w') (hpositive : interval.IsPositive)
    (ht : (w.timer t).OnGrid interval key) :
    (w'.timer t).OnGrid interval (.ofTotal (w'.host.now.multipleAfter interval)) ∧
      (t, .onClock (.ofTotal (w'.host.now.multipleAfter interval))) ∈ w'.waiting s .active := by
  obtain ⟨hrow, hwaits, hhost⟩ := h.requeued ht.interval ht.trigger
  have hnext : w.nextTrigger s (w.timer t) interval (.onClock key) =
      .onClock (.ofTotal (w.host.now.multipleAfter interval)) := by
    simp only [nextTrigger, ht.aligned, followingRepeat_of_aligned _ _ _ hpositive]
  rw [hnext] at hrow hwaits
  rw [hhost, hrow]
  exact ⟨⟨rfl, ht.interval, ht.aligned⟩, hwaits⟩

/-- A step leaves the timer on its grid, under the same key if it does not fire it. -/
theorem Step.on_grid (h : w.Step e w') (hw : w.Sound) (hmade : w.made t = true)
    (hpositive : interval.IsPositive) (ht : (w.timer t).OnGrid interval key)
    (hadjusts : ¬ e.Adjusts t) :
    (w'.timer t).OnGrid interval
      (if e.Starts t then .ofTotal (w'.host.now.multipleAfter interval) else key) := by
  by_cases hstarts : e.Starts t
  · rw [if_pos hstarts]
    cases e with
    | started s u kind callback call args =>
      obtain rfl : u = t := hstarts
      exact (h.next_on_grid hpositive ht).1
    | _ => exact hstarts.elim
  · rw [if_neg hstarts]
    exact ht.of_same (h.settings hw hmade hadjusts hstarts)

/-- The key of the timer is the one with which it came, or stems from a firing. -/
theorem Path.on_grid (h : w₁.Path ms w₂) (hw : w₁.Sound) (hmade : w₁.made t = true)
    (hpositive : interval.IsPositive) (ht : (w₁.timer t).OnGrid interval key)
    (hadjusts : ∀ m ∈ ms, ¬ m.event.Adjusts t) :
    w₂.made t = true ∧ ∃ key', (w₂.timer t).OnGrid interval key' ∧
      (key' = key ∨ ∃ m ∈ ms, m.event.Starts t ∧
        key' = .ofTotal (m.world.host.now.multipleAfter interval)) := by
  induction h with
  | nil => exact ⟨hmade, key, ht, Or.inl rfl⟩
  | @cons rest w w' e hrest hstep ih =>
    obtain ⟨hmade', key', hgrid, horigin⟩ := ih fun m hm => hadjusts m (List.mem_cons_of_mem _ hm)
    have hnext := hstep.on_grid (hrest.sound hw).1 hmade' hpositive hgrid
      (hadjusts _ List.mem_cons_self)
    refine ⟨hstep.made hmade', _, hnext, ?_⟩
    split
    · rename_i hstarts
      exact Or.inr ⟨_, List.mem_cons_self, hstarts, rfl⟩
    · exact horigin.imp_right fun ⟨m, hm, hfacts⟩ => ⟨m, List.mem_cons_of_mem _ hm, hfacts⟩

end World

/-- The timer is in the journal as one that was made for the next multiple. -/
theorem MakesAligned.exists_moment (h : MakesAligned t interval r r₁) :
    ∃ m, r₁.journal = m :: r.journal ∧ r₁.world = m.world ∧ interval.IsPositive ∧
      m.world.made t = true ∧
      (m.world.timer t).OnGrid interval (.ofTotal (m.world.host.now.multipleAfter interval)) := by
  cases h with
  | @prepare call s callback args h =>
    obtain ⟨w, hmade, rfl⟩ := prepare_of_perform h
    obtain ⟨hpositive, rfl, row, rfl, hrow⟩ := World.prepare_nextMultiple_eq_ok hmade
    refine ⟨_, rfl, rfl, hpositive, World.made_create .., ?_⟩
    rw [World.timer_create, if_pos rfl]
    exact hrow
  | @schedule call s callback args h =>
    obtain ⟨w, hmade, rfl⟩ := schedule_of_perform h
    obtain ⟨hpositive, rfl, row, trigger, rfl, hrow⟩ := World.schedule_nextMultiple_eq_ok hmade
    refine ⟨_, rfl, rfl, hpositive, World.made_create r.world row, ?_⟩
    rw [World.timer_enqueue, if_pos rfl, World.timer_create, if_pos rfl]
    exact ⟨hrow.trigger, hrow.interval, hrow.aligned⟩

/-- A timer that is made for multiples of an interval stays on them, unless a setter moves it. -/
theorem Reachable.keeps_aligned (h : Reachable r) (hmakes : MakesAligned t interval r₁ r₂)
    (hjournal : r.journal = later ++ r₂.journal) (hadjusts : ∀ m ∈ later, ¬ m.event.Adjusts t) :
    KeepsAligned t interval r₂.world later := by
  obtain ⟨m₀, hmoment, hworld, hpositive, hmade, hgrid⟩ := hmakes.exists_moment
  rw [hmoment] at hjournal
  obtain ⟨w, hfresh, hbefore, hafter⟩ := h.path_to hjournal
  have hsound := (hbefore.sound hfresh.sound).1
  rw [hworld]
  refine ⟨hpositive, ⟨_, hgrid.trigger, Instant.firstMultiple_ofTotal hpositive⟩, ?_, ?_⟩
  · intro ms m earlier hlater hstored hfired
    rw [hlater] at hafter
    obtain ⟨w', hpath, -⟩ := hafter.split
    have hend := hpath.endOf_eq
    subst hend
    obtain ⟨-, key, hkey, horigin⟩ := hpath.on_grid hsound hmade hpositive hgrid
      fun m' hm' => hadjusts m' (by rw [hlater]; exact List.mem_append_right _ hm')
    refine ⟨key, hkey.trigger, ?_, fun s kind trigger hwaits => ?_⟩
    · rcases horigin with rfl | ⟨m', hm', hstarts, rfl⟩
      · exact (Instant.firstMultiple_ofTotal hpositive hstored).multiple
      · exact (Instant.firstMultiple_ofTotal hpositive (hfired m' hm' hstarts)).multiple
    · have hentry := (hpath.sound hsound).1.entry hwaits
      exact Option.some.inj (hentry.2.symm.trans hkey.trigger)
  · intro m s kind callback call args hm hevent
    obtain ⟨ms, earlier, hlater⟩ := List.append_of_mem hm
    rw [hlater] at hafter
    obtain ⟨w', hpath, -⟩ := hafter.split
    obtain ⟨event, world⟩ := m
    obtain rfl : event = _ := hevent
    cases hpath with
    | cons hrest hstep =>
      obtain ⟨-, key, hkey, -⟩ := hrest.on_grid hsound hmade hpositive hgrid
        fun m' hm' => hadjusts m' (by simp [hlater, hm'])
      exact ⟨_, (hstep.next_on_grid hpositive hkey).2, Instant.firstMultiple_ofTotal hpositive⟩

section Minutes

/-- A timer for every full minute is queued at the epoch. -/
def minuteMade : Run :=
  after (execute (fun _ _ _ _ => .finish .succeeded) 1
    (.schedule 0 .nextMultiple (some (.ofSeconds 60)) ⟨0, none⟩ [])) { world := emptyWorld }

/-- A run to look at. The timer is fired after two minutes and a half, then, with the clock put back,
before it is due, then, after it was cancelled and armed again, at the full minute. -/
def minuteRun : Run :=
  performAll (fun _ _ _ _ => .finish .succeeded) 1
    [.changeHost (.setNow (.ofSeconds 150)),
      .drain 0 (.named "main"),
      .changeHost (.setNow (.ofSeconds 100)),
      .fire 0 ⟨0⟩,
      .cancel 0 ⟨0⟩,
      .arm 0 ⟨0⟩ false,
      .changeHost (.setNow (.ofSeconds 120)),
      .drain 0 (.named "main")]
    minuteMade

theorem makesAligned_minuteMade :
    MakesAligned ⟨0⟩ (.ofSeconds 60) { world := emptyWorld } minuteMade := by
  have hmade : perform (caller (fun _ _ _ _ => .finish .succeeded) 1)
      (.schedule 0 .nextMultiple (some (.ofSeconds 60)) ⟨0, none⟩ []) { world := emptyWorld } =
      .ok (.timer ⟨0⟩) minuteMade := rfl
  exact .schedule hmade

theorem reachable_minuteRun : Reachable minuteRun :=
  ((Reachable.start fresh_emptyWorld).perform _ _ _).performAll _ _ _

theorem exists_minuteRun_journal : ∃ later, minuteRun.journal = later ++ minuteMade.journal := by
  obtain ⟨later, hext⟩ := Run.continues_performAll (fun _ _ _ _ => .finish .succeeded) 1 _ minuteMade
  exact ⟨later, hext.journal⟩

attribute [irreducible] minuteMade minuteRun

/-- The timer fires three times, each time for another minute than it was due at. -/
theorem keeps_aligned_minuteRun : ∃ later, minuteRun.journal = later ++ minuteMade.journal ∧
    KeepsAligned ⟨0⟩ (.ofSeconds 60) minuteMade.world later ∧
    (∀ m ∈ minuteRun.journal, Ticks.Representable (m.world.host.now.multipleAfter (.ofSeconds 60))) ∧
    (minuteRun.world.timer ⟨0⟩).trigger = some (.onClock (.ofSeconds 180)) := by
  obtain ⟨later, hjournal⟩ := exists_minuteRun_journal
  have hadjusts : ∀ m ∈ minuteRun.journal, ¬ m.event.Adjusts ⟨0⟩ := by decide +kernel
  have haligned := reachable_minuteRun.keeps_aligned makesAligned_minuteMade hjournal
    fun m hm => hadjusts m (by rw [hjournal]; exact List.mem_append_left _ hm)
  exact ⟨later, hjournal, haligned, by decide +kernel, by decide +kernel⟩

end Minutes

end Timekeeping
