import Timekeeping.Run.Act

/-!
Firing one timer, and all that are due. A pass fires every timer that is due at
its start, the most overdue first. It goes through the two queues as they stood
then, and passes over entries whose timer has since been fired, cancelled, moved
or given another trigger.
-/
namespace Timekeeping

open Act

/-- What a firing comes to when its callback came back. -/
def FiringOutcome.ofEnding (t : TimerId) (callback : Callback) : Ending → FiringOutcome
  | .succeeded => ran
  | .failed message => failed (.callback t.number callback.title message)

theorem FiringOutcome.ofEnding_ne_skipped (t : TimerId) (callback : Callback) (ending : Ending) :
    FiringOutcome.ofEnding t callback ending ≠ .skipped := by
  cases ending <;> nofun

/-- Runs the callback of a timer that waits in the scheduler. -/
def fire (call : Caller) (s : SchedulerId) (t : TimerId) : Act FiringOutcome := do
  match (← world).take s t with
  | .absent => return .skipped
  | .idle w =>
    record (.emptied s t) w
    return .skipped
  | .started start w =>
    let key := start.callback.key
    let number := w.calls.get key
    record (.started s t start.kind start.callback number start.args)
      { w with calls := w.calls.set key (number + 1) }
    let ending ← shield (w.scheduler s).config.catchPanics (call s start.callback number start.args)
    record (.settled s t start.again) ((← world).settle s t start)
    return .ofEnding t start.callback ending

namespace World

/-- Whether an entry of the active queue still stands for a timer that may fire. -/
def liveOnClock (w : World) (e : Entry Instant TimerId) : Bool :=
  let r := w.timer e.item
  !r.triggered && r.queued = some .active && r.trigger = some (.onClock e.key)

def liveWhenIdle (w : World) (e : Entry Duration TimerId) : Bool :=
  let r := w.timer e.item
  !r.triggered && r.queued = some .idle && r.trigger = some (.afterIdle e.key)

end World

/-- What is left of the two queues, read at `now` and after the host has been idle for `idleFor`. -/
structure Snapshot where
  now : Instant
  idleFor : Option Duration
  active : List (Entry Instant TimerId)
  idle : List (Entry Duration TimerId)

namespace Snapshot

/-- The queues of a scheduler; the idle queue only while the host is idle. -/
def ofWorld (w : World) (s : SchedulerId) (idleFor : Option Duration) : Snapshot where
  now := w.host.now
  idleFor := idleFor
  active := (w.scheduler s).active.entries
  idle := if idleFor.isSome then (w.scheduler s).idle.entries else []

def size (p : Snapshot) : Nat := p.active.length + p.idle.length

/-- The entries before the first live ones, with the triggers they stand for. -/
def stale (p : Snapshot) (w : World) : List (TimerId × Trigger) :=
  (p.active.takeWhile fun e => !w.liveOnClock e).map (fun e => (e.item, .onClock e.key)) ++
    (p.idle.takeWhile fun e => !w.liveWhenIdle e).map (fun e => (e.item, .afterIdle e.key))

/-- The snapshot from the first entries on that are live. -/
def skip (p : Snapshot) (w : World) : Snapshot :=
  { p with
    active := p.active.dropWhile fun e => !w.liveOnClock e
    idle := p.idle.dropWhile fun e => !w.liveWhenIdle e }

/-- A timer to consider next, the trigger it waits for, how long it still has to wait, and the
entries after it. -/
structure Pick where
  timer : TimerId
  trigger : Trigger
  wait : Duration
  rest : Snapshot

/-- The first entry of the active queue, with its wait. -/
def pickActive? (p : Snapshot) : Option Pick :=
  match p.active with
  | [] => none
  | e :: rest => some ⟨e.item, .onClock e.key, e.key - p.now, { p with active := rest }⟩

def pickIdle? (p : Snapshot) : Option Pick :=
  match p.idle, p.idleFor with
  | e :: rest, some idleFor =>
    some ⟨e.item, .afterIdle e.key, e.key - idleFor, { p with idle := rest }⟩
  | _, _ => none

/-- The first entry with the shorter wait, the active queue's when both wait as long. -/
def pick? (p : Snapshot) : Option Pick :=
  match p.pickActive?, p.pickIdle? with
  | some a, some i => if i.wait < a.wait then some i else some a
  | some a, none => some a
  | none, i => i

end Snapshot

/-- Fires the due timers of a snapshot, of at most `count` entries. -/
def sweep (call : Caller) (pass : Nat) (s : SchedulerId) : Nat → Snapshot → Nat → Act PassReport
  | 0, _, fired => return ⟨fired, none⟩
  | count + 1, p, fired => do
    let w ← world
    record (.passedOver pass s (p.stale w)) w
    match (p.skip w).pick? with
    | none => return ⟨fired, none⟩
    | some next =>
      if next.wait.IsPositive then return ⟨fired, some next.wait⟩
      else
        record (.picked pass s next.timer next.trigger next.wait) w
        let outcome ← fire call s next.timer
        sweep call pass s count next.rest (if outcome = .skipped then fired else fired + 1)

/-- Makes idle timers live if the host is idle and the loop has not seen it so. -/
def wakeIdle (s : SchedulerId) (loop : LoopId) (w : World) : Act Unit :=
  if !w.loops.get loop && w.host.idleFor?.isSome then record (.idleStarted s) (w.startIdle s)
  else pure ()

/-- Notes whether the host is idle, and for how long it has been. -/
def observeIdle (pass : Nat) (s : SchedulerId) (loop : LoopId) : Act (Option Duration) := do
  wakeIdle s loop (← world)
  let w ← world
  let idleFor := w.host.idleFor?
  record (.passBegan pass s loop idleFor) { w with loops := w.loops.set loop idleFor.isSome }
  return idleFor

/-- One pass of a loop over a scheduler. -/
def drain (call : Caller) (s : SchedulerId) (loop : LoopId) : Act PassReport := do
  let pass ← nextPass
  let idleFor ← observeIdle pass s loop
  let p := Snapshot.ofWorld (← world) s idleFor
  let report ← sweep call pass s p.size p 0
  record (.passEnded pass s loop report) (← world)
  return report

end Timekeeping
