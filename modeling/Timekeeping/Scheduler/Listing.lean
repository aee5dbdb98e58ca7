import Timekeeping.World

/-!
Descriptions of queued timers.
-/
namespace Timekeeping

structure TimerSummary where
  timer : TimerId
  queue : QueueKind
  trigger : Option Trigger
  interval : Option Duration
  triggered : Bool
  aligned : Bool
  callback : Option String

namespace TimerSummary

def ofTimer (t : TimerId) (r : Timer) : TimerSummary where
  timer := t
  queue := r.queued.getD .active
  trigger := r.trigger
  interval := r.interval
  triggered := r.triggered
  aligned := r.aligned
  callback := r.callback.bind Callback.name

def toJson (e : TimerSummary) : Json :=
  .record [("id", .integer e.timer.number), ("queue", e.queue.toJson),
    ("trigger", Json.orNull Trigger.toJson e.trigger),
    ("repeat", Json.orNull (fun d => d.toTicks.toJson) e.interval),
    ("triggered", .bool e.triggered), ("integral_multiple", .bool e.aligned),
    ("callback", Json.orNull .text e.callback)]

end TimerSummary

namespace World

/-- The timers of the active queue and then those of the idle queue. -/
def listing (w : World) (s : SchedulerId) : List TimerSummary :=
  ((w.scheduler s).active.items ++ (w.scheduler s).idle.items).map fun t => .ofTimer t (w.timer t)

end World
end Timekeeping
