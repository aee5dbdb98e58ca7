import Timekeeping.Host
import Timekeeping.Queue
import Timekeeping.Table
import Timekeeping.Timer

/-!
The state that all schedulers of a session share. A timer is a row of the
table of timers and every queue holds its identity alone, so a change through
one scheduler is seen by all. A row says in which kind of queue its timer
waits; the queues say in whose.
-/
namespace Timekeeping

structure Firing where
  timer : Nat
  callback : Option String
  queue : QueueKind
  firedAt : Instant
deriving DecidableEq

def Firing.toJson (f : Firing) : Json :=
  .record [("timer_id", .integer f.timer), ("callback", Json.orNull .text f.callback),
    ("queue", f.queue.toJson), ("fired_at", f.firedAt.toTicks.toJson)]

/-- The most recent firings, newest first. -/
structure History where
  depth : Nat
  firings : List Firing := []

namespace History

instance : Inhabited History := ⟨⟨0, []⟩⟩

/-- Remembers a firing and forgets the oldest one beyond the depth. -/
def record (h : History) (f : Firing) : History := { h with firings := (f :: h.firings).take h.depth }

/-- The firing before the `n` latest ones. -/
def nth? (h : History) (n : Nat) : Option Firing := h.firings[n]?

def latest? (h : History) : Option Firing := h.nth? 0

end History

/-- Values that callbacks may change for the time they run. -/
abbrev Context := List (String × Json)

namespace Context

def erase (c : Context) (name : String) : Context := c.filter fun entry => entry.1 ≠ name

def set (c : Context) (name : String) (value : Json) : Context := erase c name ++ [(name, value)]

end Context

structure Scheduler where
  config : Config
  /-- How many seconds local clocks are ahead, as the scheduler's host reports it. -/
  offset : Int
  active : Queue Instant TimerId := {}
  idle : Queue Duration TimerId := {}
  history : History
  context : Context := []

namespace Scheduler

def ofConfig (config : Config) (offset : Int) : Scheduler :=
  { config, offset, history := ⟨config.historyDepth.toNat, []⟩ }

instance : Inhabited Scheduler := ⟨ofConfig {} 0⟩

/-- A scheduler with checked settings. -/
def build (config : Config) (offset : Int) : Except TimerError Scheduler :=
  match config.check with
  | .ok config => .ok (ofConfig config offset)
  | .error fault => .error (.config fault)

/-- Puts a timer into the queue for its trigger. -/
def enqueue (S : Scheduler) (t : TimerId) : Trigger → Scheduler
  | .onClock time => { S with active := S.active.insert time t }
  | .afterIdle delay => { S with idle := S.idle.insert delay t }

def contains (S : Scheduler) (t : TimerId) : QueueKind → Bool
  | .active => S.active.contains t
  | .idle => S.idle.contains t

def dequeue (S : Scheduler) (t : TimerId) : QueueKind → Scheduler
  | .active => { S with active := S.active.remove t }
  | .idle => { S with idle := S.idle.remove t }

end Scheduler

abbrev SchedulerId := Nat

/-- A loop that drains schedulers. A poller has one of its own. -/
inductive LoopId
  | named (name : String)
  | poller
deriving DecidableEq

structure World where
  host : Host
  /-- How many timers there are. -/
  created : Nat := 0
  timers : Table TimerId Timer := {}
  schedulers : Table SchedulerId Scheduler := {}
  /-- Whether a loop saw the host idle in its last pass. -/
  loops : Table LoopId Bool := {}
  /-- How often each callback has been started. -/
  calls : Table Nat Nat := {}
  /-- Timers that callbacks know by name. -/
  names : Table String (Option TimerId) := {}
  /-- The value that a poller watches for its end. -/
  stop : Bool := false
  /-- Whether a poller is running. -/
  polling : Bool := false

namespace World

def timer (w : World) (t : TimerId) : Timer := w.timers.get t

def scheduler (w : World) (s : SchedulerId) : Scheduler := w.schedulers.get s

/-- Whether there is a timer of this identity. -/
def made (w : World) (t : TimerId) : Bool := t.index < w.created

def setTimer (w : World) (t : TimerId) (r : Timer) : World := { w with timers := w.timers.set t r }

def setScheduler (w : World) (s : SchedulerId) (S : Scheduler) : World :=
  { w with schedulers := w.schedulers.set s S }

@[simp] theorem timer_setTimer (w : World) (t u : TimerId) (r : Timer) :
    (w.setTimer t r).timer u = if t = u then r else w.timer u :=
  Table.get_set ..

@[simp] theorem timer_setScheduler (w : World) (s : SchedulerId) (S : Scheduler) (u : TimerId) :
    (w.setScheduler s S).timer u = w.timer u := rfl

@[simp] theorem scheduler_setScheduler (w : World) (s s' : SchedulerId) (S : Scheduler) :
    (w.setScheduler s S).scheduler s' = if s = s' then S else w.scheduler s' :=
  Table.get_set ..

@[simp] theorem scheduler_setTimer (w : World) (t : TimerId) (r : Timer) (s : SchedulerId) :
    (w.setTimer t r).scheduler s = w.scheduler s := rfl

/-- A new timer, after all others. -/
def create (w : World) (r : Timer) : TimerId × World :=
  (⟨w.created⟩, { w.setTimer ⟨w.created⟩ r with created := w.created + 1 })

/-- Queues a timer with the given trigger. -/
def enqueue (w : World) (s : SchedulerId) (t : TimerId) (trigger : Trigger) (triggered : Bool) : World :=
  (w.setTimer t { w.timer t with triggered, queued := some trigger.kind }).setScheduler s
    ((w.scheduler s).enqueue t trigger)

/-- The queue of this scheduler that holds the timer. -/
def queueOf? (w : World) (s : SchedulerId) (t : TimerId) : Option QueueKind :=
  (w.timer t).queued.filter ((w.scheduler s).contains t)

/-- Takes a timer out of its queue. -/
def dequeue (w : World) (s : SchedulerId) (t : TimerId) (kind : QueueKind) : World :=
  (w.setScheduler s ((w.scheduler s).dequeue t kind)).setTimer t { w.timer t with queued := none }

/-- Whether the timer waits in a queue of this scheduler. -/
def waits (w : World) (s : SchedulerId) (t : TimerId) : Bool := (w.queueOf? s t).isSome

end World
end Timekeeping
