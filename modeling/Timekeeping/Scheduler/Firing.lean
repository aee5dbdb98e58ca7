import Timekeeping.World

/-!
The two halves of a firing. Before its callback runs, a timer leaves its queue
and a repeating one comes back, triggered, under its next trigger. Afterwards
the context is restored, and a timer that came back to the active queue and is
still in one is live again.
-/
namespace Timekeeping.World

/-- The instant that follows `time` in a timer's repeats. More missed repeats than the limit
are left out, and those of an aligned timer are counted from now. -/
def followingRepeat (now time : Instant) (interval : Duration) (maxRepeats : Option UInt32)
    (aligned : Bool) : Instant :=
  let caughtUp : Instant := match maxRepeats with
    | some limit =>
      let missed := (now - time).wholeUnits interval
      if ¬ now < time ∧ (limit.toNat : Int) < missed then time + interval.times missed else time
    | none => time
  let next : Instant := caughtUp + interval
  if aligned then (now.nextAligned? interval).getD next else next

/-- The trigger under which a repeating timer waits again. -/
def nextTrigger (w : World) (s : SchedulerId) (r : Timer) (interval : Duration) : Trigger → Trigger
  | .onClock time =>
    .onClock (followingRepeat w.host.now time interval (w.scheduler s).config.maxRepeats r.aligned)
  | .afterIdle delay => .afterIdle delay

/-- Queues a repeating timer again, triggered. -/
def requeue (w : World) (s : SchedulerId) (t : TimerId) (r : Timer) : World :=
  match r.interval, r.trigger with
  | some interval, some trigger =>
    let next := w.nextTrigger s r interval trigger
    (w.setTimer t { w.timer t with trigger := some next }).enqueue s t next true
  | _, _ => w

/-- What a started firing needs to run its callback and to end. -/
structure Started where
  kind : QueueKind
  callback : Callback
  args : List Json
  /-- Whether the timer is to be live again. -/
  again : Bool
  context : Context

/-- What becomes of a timer that is to be fired. -/
inductive Taken
  /-- It does not wait in this scheduler. -/
  | absent
  /-- It waited without a callback. -/
  | idle (w : World)
  | started (start : Started) (w : World)

def take (w : World) (s : SchedulerId) (t : TimerId) : Taken :=
  match w.queueOf? s t with
  | none => .absent
  | some kind =>
    let r := w.timer t
    let w := w.dequeue s t kind
    let w := w.setTimer t { w.timer t with triggered := true }
    let w := w.requeue s t r
    match r.callback with
    | none => .idle w
    | some callback =>
      let S := w.scheduler s
      let firing : Firing := ⟨t.number, callback.name, kind, w.host.now⟩
      .started
        { kind, callback, args := r.args, context := S.context
          again := r.interval.isSome && (r.trigger.map Trigger.kind) = some .active }
        (w.setScheduler s { S with history := S.history.record firing })

/-- Ends a firing whose callback came back. -/
def settle (w : World) (s : SchedulerId) (t : TimerId) (start : Started) : World :=
  let w := w.setScheduler s { w.scheduler s with context := start.context }
  if start.again ∧ (w.timer t).queued = some .active then
    w.setTimer t { w.timer t with triggered := false }
  else w

/-- Makes every timer of the idle queue live. -/
def startIdle (w : World) (s : SchedulerId) : World :=
  (w.scheduler s).idle.items.foldl
    (fun w t => w.setTimer t { w.timer t with triggered := false }) w

end Timekeeping.World
