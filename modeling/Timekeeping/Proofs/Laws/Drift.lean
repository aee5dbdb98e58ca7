import Timekeeping.Proofs.Run.QuietPass

/-!
Repeats do not drift. A timer that fell behind catches up while the clock stands,
in one run or in one for each repeat that it missed, and both ways it comes to
wait for the first instant after now that lies whole intervals after its key.
-/
namespace Timekeeping

open Act

/-- Passes over a scheduler from outside, one after another, by any loops. -/
def drains (behaviour : Behaviour) (depth : Nat) (s : SchedulerId) (loops : List LoopId) (r : Run) :
    Run :=
  performAll behaviour depth (loops.map (.drain s)) r

/-- A repeating timer of the active queue, not an aligned one, is live and due. The time since its
key and the instant that it is to come to can be stored. -/
structure Overdue (s : SchedulerId) (t : TimerId) (key : Instant) (interval : Duration) (w : World) :
    Prop where
  ready : w.Ready s (t, .onClock key)
  repeats : (w.timer t).interval = some interval
  unaligned : (w.timer t).aligned = false
  positive : interval.IsPositive
  due : key ≤ w.host.now
  span : Ticks.Representable (w.host.now.total - key.total)
  slot : Ticks.Representable
    (key.total + (w.host.now.missed key interval + 1) * interval.total)

/-- How often the timer runs until it has caught up. -/
def Overdue.runs (s : SchedulerId) (key : Instant) (interval : Duration) (w : World) : Nat :=
  World.runsLeft (w.scheduler s).config.maxRepeats (w.host.now.missed key interval)

/-- Passes return, and each runs the timer at most once. After more of them than repeats were missed
it has run just as often as it was to, and waits, live, for the first instant of its grid after now. -/
structure CatchesUp (behaviour : Behaviour) (depth : Nat) (s : SchedulerId) (t : TimerId)
    (key : Instant) (interval : Duration) (loops : List LoopId) (r : Run) : Prop where
  returned : ∀ {before loop after}, loops = before ++ loop :: after →
    returns (execute behaviour depth (.drain s loop)) (drains behaviour depth s before r) = true
  at_most_once : ∀ {before loop after}, loops = before ++ loop :: after →
    starts t (drains behaviour depth s (before ++ [loop]) r).journal ≤
      starts t (drains behaviour depth s before r).journal + 1
  at_most_limit : ∀ limit, (r.world.scheduler s).config.maxRepeats = some limit →
    starts t (drains behaviour depth s loops r).journal ≤ starts t r.journal + (limit.toNat + 1)
  total : r.world.host.now.missed key interval + 1 ≤ loops.length →
    starts t (drains behaviour depth s loops r).journal =
      starts t r.journal + Overdue.runs s key interval r.world
  final : r.world.host.now.missed key interval + 1 ≤ loops.length →
    ∃ slot : Instant, (drains behaviour depth s loops r).world.Ready s (t, .onClock slot) ∧
      slot.total = key.total + (r.world.host.now.missed key interval + 1) * interval.total
  least : ∀ n : Int, r.world.host.now.total < key.total + n * interval.total ↔
    r.world.host.now.missed key interval + 1 ≤ n

/-- The timer waits under the key and has so many runs to go until it waits for the slot. -/
structure Behind (call : Caller) (s : SchedulerId) (t : TimerId) (interval : Duration) (slot : Int)
    (key : Instant) (left : Nat) (r : Run) : Prop where
  calm : r.world.Calm call s
  ready : r.world.Ready s (t, .onClock key)
  repeats : (r.world.timer t).interval = some interval
  unaligned : (r.world.timer t).aligned = false
  grid : key.total + (r.world.host.now.missed key interval + 1) * interval.total = slot
  bounded : -1 ≤ r.world.host.now.missed key interval
  left : World.runsLeft (r.world.scheduler s).config.maxRepeats
    (r.world.host.now.missed key interval) = left
  span : key.total ≤ r.world.host.now.total →
    Ticks.Representable (r.world.host.now.total - key.total)
  skips : ∀ limit, (r.world.scheduler s).config.maxRepeats = some limit →
    limit.toNat < r.world.host.now.missed key interval → key ≤ r.world.host.now

variable {behaviour : Behaviour} {depth : Nat} {call : Caller} {s : SchedulerId} {t : TimerId}
  {key : Instant} {interval : Duration} {slot : Int} {left : Nat} {r r' : Run}
  {loop : LoopId} {loops : List LoopId}

theorem execute_drain {report : PassReport}
    (h : drain (caller behaviour depth) s loop r = .ok report r') :
    execute behaviour depth (.drain s loop) r =
      .ok (.pass report loop (r'.world.loops.get loop)) r' := by
  unfold execute perform
  rw [Act.world_bind]
  exact Act.bind_of_ok h

/-- A run takes a timer that is behind to a later instant of its grid. -/
theorem Behind.runsThrough (h : Behind call s t interval slot key left r)
    (hpositive : interval.IsPositive) (hslot : Ticks.Representable slot)
    (hdue : key.total ≤ r.world.host.now.total) (hcalm : r'.world.Calm call s)
    (hruns : RunsThrough s t key interval r r') :
    0 < left ∧ ∃ key', Behind call s t interval slot key' (left - 1) r' := by
  obtain ⟨n, hnext, hn, hnle, hwithin, hleft⟩ := World.exists_followingRepeat hpositive
    ((Instant.missed_nonneg_iff hpositive).mpr hdue) (h.span hdue) (h.grid ▸ hslot) h.skips
  have hmissed := Instant.missed_of_total_eq r.world.host.now hpositive hnext
  have hready := hruns.ready
  unfold World.nextTrigger at hready
  rw [h.unaligned] at hready
  rw [h.left] at hleft
  refine ⟨by omega, _, hcalm, hready, hruns.interval, hruns.aligned.trans h.unaligned, ?_, ?_, ?_,
    ?_, ?_⟩
  · rw [hruns.now, hmissed, hnext, ← h.grid]
    ring
  · rw [hruns.now, hmissed]
    omega
  · rw [hruns.now, hruns.config, hmissed]
    omega
  · intro hdue'
    rw [hruns.now] at hdue' ⊢
    have hstep : 0 ≤ n * interval.total := Int.mul_nonneg (by omega) hpositive.total_pos.le
    have hnow : 0 ≤ r.world.host.now.total - _ := Int.sub_nonneg.mpr hdue'
    exact .of_le_of_le (by decide) hnow (by omega) (h.span hdue)
  · intro limit hlimit hbeyond
    rw [hruns.config] at hlimit
    rw [hruns.now, hmissed] at hbeyond
    have hle := hwithin limit hlimit
    omega

theorem Behind.spares (h : Behind call s t interval slot key left r)
    (hpositive : interval.IsPositive) (hlater : r.world.host.now.total < key.total)
    (hcalm : r'.world.Calm call s) (hspares : Spares t r r') :
    left = 0 ∧ Behind call s t interval slot key left r' := by
  have hzero : left = 0 := by
    rw [← h.left, World.runsLeft_eq_zero_iff, ← Int.not_le, Instant.missed_nonneg_iff hpositive]
    omega
  refine ⟨hzero, hcalm, hspares.ready h.ready, ?_, ?_, ?_, ?_, ?_, ?_, ?_⟩
  · rw [hspares.timer.timer, h.repeats]
  · rw [hspares.timer.timer, h.unaligned]
  · rw [hspares.now, h.grid]
  · rw [hspares.now]
    exact h.bounded
  · rw [hspares.now, hspares.config, h.left]
  · rw [hspares.now]
    exact h.span
  · rw [hspares.now, hspares.config]
    exact h.skips

/-- A pass takes one from the runs that are left, if there are any. -/
theorem Behind.drain (hcall : call.Keeps (Run.Continues none)) (hpositive : interval.IsPositive)
    (hslot : Ticks.Representable slot) (h : Behind call s t interval slot key left r)
    (loop : LoopId) : ∃ report r' key', Timekeeping.drain call s loop r = .ok report r' ∧
      Behind call s t interval slot key' (left - 1) r' ∧
      starts t r'.journal = starts t r.journal + min 1 left := by
  obtain ⟨report, r', hdrain, hcalm, hruns, hspares⟩ :=
    h.calm.drain hcall h.ready h.repeats loop
  by_cases hdue : key.total ≤ r.world.host.now.total
  · obtain ⟨hleft, key', hbehind⟩ := h.runsThrough hpositive hslot hdue hcalm (hruns hdue)
    refine ⟨report, r', key', hdrain, hbehind, ?_⟩
    rw [(hruns hdue).starts]
    omega
  · have hlater := Int.not_le.mp hdue
    obtain ⟨rfl, hbehind⟩ := h.spares hpositive hlater hcalm (hspares hlater)
    exact ⟨report, r', key, hdrain, hbehind, (hspares hlater).starts⟩

theorem drains_cons (behaviour : Behaviour) (depth : Nat) (s : SchedulerId) (loop : LoopId)
    (loops : List LoopId) (r : Run) : drains behaviour depth s (loop :: loops) r =
      drains behaviour depth s loops (after (execute behaviour depth (.drain s loop)) r) := rfl

/-- So do several passes, one run each. -/
theorem Behind.drains (hpositive : interval.IsPositive) (hslot : Ticks.Representable slot)
    (h : Behind (caller behaviour depth) s t interval slot key left r) (loops : List LoopId) :
    ∃ key', Behind (caller behaviour depth) s t interval slot key' (left - loops.length)
        (Timekeeping.drains behaviour depth s loops r) ∧
      starts t (Timekeeping.drains behaviour depth s loops r).journal =
        starts t r.journal + min loops.length left := by
  -- A run moves the key, but not the slot that the timer is to come to.
  induction loops generalizing key left r with
  | nil => exact ⟨key, h, (Nat.add_zero _).symm⟩
  | cons loop rest ih =>
    obtain ⟨report, r', key', hdrain, hbehind, hstarts⟩ :=
      h.drain (keeps_continues behaviour depth) hpositive hslot loop
    have hafter : after (execute behaviour depth (.drain s loop)) r = r' := by
      unfold after
      rw [execute_drain hdrain]
    obtain ⟨key'', hrest, hstarts'⟩ := ih hbehind
    rw [drains_cons, hafter, List.length_cons]
    refine ⟨key'', ?_, ?_⟩
    · rw [Nat.sub_sub, Nat.add_comm] at hrest
      exact hrest
    · rw [hstarts', hstarts]
      omega

/-- A timer that is overdue has as many runs to go as it is to make. -/
theorem Overdue.behind (h : Overdue s t key interval r.world) (hcalm : r.world.Calm call s) :
    Behind call s t interval
      (key.total + (r.world.host.now.missed key interval + 1) * interval.total) key
      (Overdue.runs s key interval r.world) r := by
  have hnormal : key.Normal := hcalm.normal _ h.ready.2
  have hdue : key.total ≤ r.world.host.now.total := Ticks.total_le_total hnormal h.due
  have hmissed := (Instant.missed_nonneg_iff h.positive).mpr hdue
  exact ⟨hcalm, h.ready, h.repeats, h.unaligned, rfl, by omega, rfl, fun _ => h.span,
    fun _ _ _ => h.due⟩

/-- If the clock keys of a scheduler are normal, and the callbacks of its timers come back and touch
no timer, then a timer that is overdue catches up. -/
theorem Reachable.drift_law (h : Reachable r)
    (hnormal : ∀ x ∈ r.world.waiting s .active, x.2.Normal)
    (hleaves : ∀ callback, r.world.CallbackWaits s callback →
      (caller behaviour depth).LeavesTimers s callback)
    (hback : ∀ callback, r.world.CallbackWaits s callback →
      (caller behaviour depth).ComesBack (r.world.scheduler s).config.catchPanics s callback)
    (hoverdue : Overdue s t key interval r.world) (loops : List LoopId) :
    CatchesUp behaviour depth s t key interval loops r := by
  have hbehind := hoverdue.behind ⟨h.sound.1, hnormal, hleaves, hback⟩
  have hdrains := fun loops => hbehind.drains hoverdue.positive hoverdue.slot loops
  have hruns : (Overdue.runs s key interval r.world : Int) ≤
      r.world.host.now.missed key interval + 1 := World.runsLeft_le _ hbehind.bounded
  refine ⟨?_, ?_, ?_, ?_, ?_, ?_⟩
  · rintro before loop after rfl
    obtain ⟨key', hbefore, -⟩ := hdrains before
    obtain ⟨report, r', -, hdrain, -⟩ := hbefore.drain (keeps_continues behaviour depth)
      hoverdue.positive hoverdue.slot loop
    unfold returns
    rw [execute_drain hdrain]
  · rintro before loop after rfl
    obtain ⟨-, -, hfirst⟩ := hdrains before
    obtain ⟨-, -, hsecond⟩ := hdrains (before ++ [loop])
    rw [List.length_append, List.length_singleton] at hsecond
    omega
  · intro limit hlimit
    obtain ⟨-, -, hstarts⟩ := hdrains loops
    have hle := World.runsLeft_le_limit limit (r.world.host.now.missed key interval)
    unfold Overdue.runs at hstarts
    rw [hlimit] at hstarts
    omega
  · intro hlength
    obtain ⟨-, -, hstarts⟩ := hdrains loops
    omega
  · intro hlength
    obtain ⟨key', hend, -⟩ := hdrains loops
    have hnone : Overdue.runs s key interval r.world - loops.length = 0 := by omega
    rw [hnone] at hend
    refine ⟨key', hend.ready, ?_⟩
    have hmissed := World.runsLeft_eq_zero_iff.mp hend.left
    have hbounded := hend.bounded
    have hgrid := hend.grid
    have hlast : (drains behaviour depth s loops r).world.host.now.missed key' interval + 1 = 0 := by
      omega
    rw [hlast, Int.zero_mul, Int.add_zero] at hgrid
    exact hgrid
  · exact Instant.lt_add_mul_iff hoverdue.positive

section Lagging

/-- Every callback panics. -/
def panicking : Behaviour := fun _ _ _ _ => .panic (.literal "no luck")

theorem leavesTimers_panicking (s : SchedulerId) (callback : Callback) :
    (caller panicking 1).LeavesTimers s callback where
  touches := by
    intro number args ms r hjournal m hm
    have hnil : ms = [] := List.self_eq_append_left.mp hjournal
    rw [hnil] at hm
    cases hm
  now _ _ _ := rfl

theorem comesBack_panicking (s : SchedulerId) (callback : Callback) :
    (caller panicking 1).ComesBack true s callback := fun _ _ _ => rfl

/-- A run to look at. At second 10 a timer for second 2 is queued that repeats every second, behind
other timers that do not repeat. -/
def laggingRun (catching : Bool) (others : List Instant) : Run :=
  performAll panicking 1
    (others.map (fun time => .schedule 0 (.instant time) none ⟨1, none⟩ []) ++
      [.schedule 0 (.instant (.ofSeconds 2)) (some (.ofSeconds 1)) ⟨0, none⟩ [],
        .changeHost (.setNow (.ofSeconds 10))])
    { world := {
        host := { now := .epoch }
        schedulers := Table.set {} 0 (.ofConfig { catchPanics := catching } 0) } }

theorem reachable_laggingRun (catching : Bool) (others : List Instant) :
    Reachable (laggingRun catching others) := by
  refine (Reachable.start ⟨rfl, fun _ => rfl, fun s => ?_, fun s => ?_⟩).performAll _ _ _
  · unfold World.scheduler
    rw [Table.get_set]
    split <;> rfl
  · unfold World.scheduler
    rw [Table.get_set]
    split <;> rfl

attribute [irreducible] laggingRun

theorem overdue_laggingRun (catching : Bool) :
    Overdue 0 ⟨0⟩ (.ofSeconds 2) (.ofSeconds 1) (laggingRun catching []).world := by
  cases catching <;>
    exact ⟨by decide +kernel, by decide +kernel, by decide +kernel, by decide, by decide +kernel,
      by decide +kernel, by decide +kernel⟩

/-- Eight repeats were missed, no more than are allowed, so nine passes make up for them. The
callback panics each time. -/
theorem drift_law_laggingRun :
    Overdue.runs 0 (.ofSeconds 2) (.ofSeconds 1) (laggingRun true []).world = 9 ∧
      CatchesUp panicking 1 0 ⟨0⟩ (.ofSeconds 2) (.ofSeconds 1)
        (List.replicate 9 (.named "main")) (laggingRun true []) := by
  have hcatching :
      ((laggingRun true []).world.scheduler 0).config.catchPanics = true := by decide +kernel
  refine ⟨by decide +kernel, (reachable_laggingRun true []).drift_law (by decide +kernel)
    (fun callback _ => leavesTimers_panicking 0 callback) (fun callback _ => ?_)
    (overdue_laggingRun true) _⟩
  rw [hcatching]
  exact comesBack_panicking 0 callback

/-- Where a panic is not caught, it leaves the timer triggered, so it runs once instead of nine times.
Where another timer waits under a key with a fraction of ten seconds, which is in front of the queue
though it is later than now, passes stop there, and it never runs. No callback touches a timer. -/
theorem laggingRun_falls_behind :
    (∀ callback, (caller panicking 1).LeavesTimers 0 callback) ∧
    (Overdue 0 ⟨0⟩ (.ofSeconds 2) (.ofSeconds 1) (laggingRun false []).world ∧
      (laggingRun false []).world.host.now.missed (.ofSeconds 2) (.ofSeconds 1) + 1 = 9 ∧
      Overdue.runs 0 (.ofSeconds 2) (.ofSeconds 1) (laggingRun false []).world = 9 ∧
      starts ⟨0⟩ (laggingRun false []).journal = 0 ∧
      starts ⟨0⟩ (drains panicking 1 0 (List.replicate 9 (.named "main"))
        (laggingRun false [])).journal = 1) ∧
    Overdue 0 ⟨1⟩ (.ofSeconds 2) (.ofSeconds 1) (laggingRun true [⟨⟨1, 10000000000000⟩⟩]).world ∧
      (laggingRun true [⟨⟨1, 10000000000000⟩⟩]).world.host.now.missed (.ofSeconds 2)
        (.ofSeconds 1) + 1 = 9 ∧
      Overdue.runs 0 (.ofSeconds 2) (.ofSeconds 1)
        (laggingRun true [⟨⟨1, 10000000000000⟩⟩]).world = 9 ∧
      starts ⟨1⟩ (drains panicking 1 0 (List.replicate 9 (.named "main"))
        (laggingRun true [⟨⟨1, 10000000000000⟩⟩])).journal = 0 := by
  refine ⟨leavesTimers_panicking 0, ⟨overdue_laggingRun false, ?_, ?_, ?_, ?_⟩,
    ⟨?_, ?_, ?_, by decide, ?_, ?_, ?_⟩, ?_, ?_, ?_⟩
  all_goals decide +kernel

end Lagging

end Timekeeping
