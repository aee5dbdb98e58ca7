import Timekeeping.Run.Pass

/-!
A poller drains a scheduler, sleeps until the next timer is due and drains
again, until it is told to stop. Time is counted in whole milliseconds from its
start, and the host's clock moves along. Cues happen beside it. Those that are
due together happen together: a poller that is woken by one of them goes on
after the last.
-/
namespace Timekeeping

open Act

namespace Poller

/-- What happens beside a poller. -/
inductive Signal
  | goIdle
  | goBusy
  /-- Sets the value that the poller watches, which wakes it. -/
  | set (stop : Bool)
  /-- Nobody can set the value any more, which ends the poller. -/
  | drop
deriving DecidableEq

/-- A signal and when it is due. One that comes after a later one happens with that one. -/
structure Cue where
  millis : Nat
  signal : Signal

def nanosPerMilli : Nat := 1000000

/-- The nanoseconds to sleep after a pass. After one that fired there is no sleep, since a timer
that waits again may already be due. -/
def sleepNanos (report : PassReport) (maxPollMillis : Nat) : Nat :=
  if 0 < report.fired then 0
  else
    match report.untilNext.bind Duration.toNanos? with
    | some nanos => min nanos (maxPollMillis * nanosPerMilli)
    | none => maxPollMillis * nanosPerMilli

/-- The first whole millisecond at which a sleep is over. -/
def wakeup (elapsed : Nat) (nanos : Nat) : Nat := elapsed + (nanos + nanosPerMilli - 1) / nanosPerMilli

/-- Moves the host's clock from one millisecond to another. -/
def advanceTo (elapsed millis : Nat) : Act Unit := do
  if elapsed < millis then
    let change := Host.Change.advance (Duration.ofNanos ((millis - elapsed) * nanosPerMilli))
    let w ← world
    record (.hostChanged change) { w with host := w.host.apply change }

/-- What a poller sees of the value that it watches. -/
structure Watch where
  /-- The value was set since the poller last looked. -/
  changed : Bool := false
  /-- Nobody can set the value any more. -/
  closed : Bool := false

/-- Whether there is something to wake up for. -/
def Watch.stirred (v : Watch) : Bool := v.changed || v.closed

/-- A signal happens. A value that nobody can set stays as it is. -/
def Signal.happen (signal : Signal) (v : Watch) (w : World) : Act Watch :=
  match signal with
  | .goIdle => do
    record (.hostChanged .goIdle) { w with host := w.host.apply .goIdle }
    return v
  | .goBusy => do
    record (.hostChanged .goBusy) { w with host := w.host.apply .goBusy }
    return v
  | .set stop =>
    if v.closed then return v
    else do
      record (.stopSet stop) { w with stop }
      return { v with changed := true }
  | .drop => return { v with closed := true }

/-- The end of a sleep: when it was over, what woke the poller, and the cues that are left. -/
structure Awake where
  elapsed : Nat
  watch : Watch
  cues : List Cue

/-- Sleeps until the deadline, or until a cue before it wakes the poller and all cues that are due
by then have happened. At the deadline the poller goes first. -/
def sleep (deadline : Nat) : Nat → Watch → List Cue → Act Awake
  | elapsed, v, [] =>
    if v.stirred then return ⟨elapsed, v, []⟩
    else do
      advanceTo elapsed deadline
      return ⟨deadline, v, []⟩
  | elapsed, v, cue :: rest =>
    if v.stirred ∧ elapsed < cue.millis then return ⟨elapsed, v, cue :: rest⟩
    else if ¬ v.stirred ∧ deadline ≤ cue.millis then do
      advanceTo elapsed deadline
      return ⟨deadline, v, cue :: rest⟩
    else do
      advanceTo elapsed cue.millis
      let v ← cue.signal.happen v (← world)
      sleep deadline (max elapsed cue.millis) v rest

/-- Whether the poller ends here. A value that was set is looked at first. -/
def Awake.ended (a : Awake) : Bool := a.watch.closed && !a.watch.changed

/-- The poller from one pass on, for at most `passes` of them. -/
def loop (call : Caller) (s : SchedulerId) (maxPollMillis : Nat) :
    Nat → Nat → Bool → List Cue → Nat → Act PollReport
  | 0, _, _, _, _ => exhausted
  | passes + 1, elapsed, closed, cues, fired => do
    if (← world).stop then return ⟨fired, elapsed⟩
    else
      let report ← drain call s .poller
      let fired := fired + report.fired
      if (← world).stop then return ⟨fired, elapsed⟩
      else
        let deadline := wakeup elapsed (sleepNanos report maxPollMillis)
        let awake ← sleep deadline elapsed { closed } cues
        if awake.ended then return ⟨fired, awake.elapsed⟩
        else loop call s maxPollMillis passes awake.elapsed awake.watch.closed awake.cues fired

/-- How many passes a poller may make. -/
def passLimit : Nat := 1000000000

/-- The panic of a poller that is run by a callback of another one. -/
def nestedPanic : Payload := .literal "a poller is already running"

/-- Runs a poller for a scheduler under its settings, with a loop that has not seen the host idle. -/
def run (call : Caller) (s : SchedulerId) (stop : Bool) (cues : List Cue) : Act PollReport := do
  let w ← world
  if w.polling then panic nestedPanic
  else
    record (.pollBegan s) { w with stop, polling := true, loops := w.loops.set .poller false }
    closing (.pollEnded s) (fun w => { w with polling := false })
      (loop call s (w.scheduler s).config.maxPollMillis.toNat passLimit 0 false cues 0)

end Poller
end Timekeeping
