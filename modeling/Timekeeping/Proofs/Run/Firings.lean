import Timekeeping.Proofs.Run.Reachability
import Timekeeping.Proofs.Run.Snapshots
import Timekeeping.Proofs.State.Repeats

/-!
The course of one firing. Its timer leaves its queue, and one that repeats is queued again,
triggered. Then the callback runs, and only if that comes back the firing is settled: the
context is what it was before, and the timer is live again. What an interrupt leaves is what
the callback has left.
-/
namespace Timekeeping

open Act

/-- A firing whose callback has left the run `back`, after the moments `ms`. -/
structure Invokes (s : SchedulerId) (t : TimerId) (r : Run) (start : World.Started) (w : World)
    (ms : List Moment) (back : Run) : Prop where
  take : r.world.take s t = .started start w
  journal : back.journal = ms ++ (r.starting s t start w).journal
  path : (r.starting s t start w).world.Path ms back.world

variable {call : Caller} {s : SchedulerId} {t : TimerId} {w : World} {r r' : Run}
  {start : World.Started}

theorem fire_of_take (htake : r.world.take s t = .started start w) :
    fire call s t r = match shield (w.scheduler s).config.catchPanics
        (call s start.callback (w.calls.get start.callback.key) start.args)
        (r.starting s t start w) with
      | .ok ending back => .ok (.ofEnding t start.callback ending) (back.settling s t start)
      | .error i back => .error i back := by
  unfold fire
  rw [Act.world_bind, htake]
  change (shield (w.scheduler s).config.catchPanics
    (call s start.callback (w.calls.get start.callback.key) start.args) >>= _)
    (r.starting s t start w) = _
  simp only [bind, EStateM.bind]
  cases shield (w.scheduler s).config.catchPanics
    (call s start.callback (w.calls.get start.callback.key) start.args)
    (r.starting s t start w) <;> rfl

/-- A timer that does not wait in the scheduler is skipped. -/
theorem fire_of_absent (call : Caller) (habsent : r.world.queueOf? s t = none) :
    fire call s t r = .ok .skipped r := by
  unfold fire
  rw [Act.world_bind, World.take_eq_absent_iff.mpr habsent]
  rfl

theorem invokes_of_take (hcall : call.Keeps (Run.Continues none))
    (htake : r.world.take s t = .started start w) :
    ∃ ms, Invokes s t r start w ms (after (call s start.callback
      (w.calls.get start.callback.key) start.args) (r.starting s t start w)) := by
  obtain ⟨ms, hext⟩ := hcall s start.callback (w.calls.get start.callback.key) start.args
    (r.starting s t start w)
  exact ⟨ms, htake, hext.journal, hext.path⟩

namespace Invokes

variable {ms : List Moment} {back : Run} {time : Instant} {interval : Duration}

/-- If the callback does not touch the timer, that waits, triggered, under its next trigger. -/
theorem held (h : Invokes s t r start w ms back) (hquiet : ∀ m ∈ ms, ¬ m.event.Touches m.world t)
    (htrigger : (r.world.timer t).trigger = some (.onClock time))
    (hinterval : (r.world.timer t).interval = some interval) :
    back.world.timer t = { r.world.timer t with
        triggered := true
        queued := some .active
        trigger := some (r.world.nextTrigger s (r.world.timer t) interval (.onClock time)) } ∧
      (t, r.world.nextTrigger s (r.world.timer t) interval (.onClock time)) ∈
        back.world.waiting s .active := by
  obtain ⟨kind, S, -, -, ha, hi, rfl⟩ := World.take_eq_started h.take
  have hsame := h.path.unchanged hquiet
  refine ⟨hsame.timer.trans ?_, (hsame.waiting s .active _).mpr ?_⟩
  · exact World.timer_withdraw_of_repeats kind hinterval htrigger
  · change _ ∈ ((r.world.withdraw s t kind).setScheduler s S).waiting s .active
    rw [World.waiting_setScheduler ha hi]
    exact World.mem_waiting_withdraw_of_repeats kind hinterval htrigger

/-- If the callback comes back too, the timer is live. -/
theorem again (h : Invokes s t r start w ms back) (hquiet : ∀ m ∈ ms, ¬ m.event.Touches m.world t)
    (htrigger : (r.world.timer t).trigger = some (.onClock time))
    (hinterval : (r.world.timer t).interval = some interval) :
    (back.settling s t start).world.Ready s
        (t, r.world.nextTrigger s (r.world.timer t) interval (.onClock time)) ∧
      ((back.settling s t start).world.timer t).interval = some interval ∧
      ((back.settling s t start).world.timer t).aligned = (r.world.timer t).aligned := by
  obtain ⟨hrow, hwaits⟩ := h.held hquiet htrigger hinterval
  have hagain : start.again = true := by
    rw [World.again_of_take h.take, hinterval, htrigger]
    rfl
  have hsettled := World.timer_settle_of_again (s := s) hagain (by rw [hrow])
  rw [hrow] at hsettled
  have hend : (back.settling s t start).world.timer t = _ := hsettled
  refine ⟨⟨by rw [hend], ?_⟩, by rw [hend]; exact hinterval, by rw [hend]⟩
  change _ ∈ (back.world.settle s t start).waiting s .active
  rw [World.waiting_settle]
  exact hwaits

end Invokes

end Timekeeping
