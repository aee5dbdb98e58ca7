import Timekeeping.Time.Instant

/-!
What a scheduler sees of its host: the clock, and since when the host is idle.
-/
namespace Timekeeping

/-- Marks the start of an idle period. -/
structure Idleness where
  since : Option Instant := none
deriving DecidableEq

namespace Idleness

instance : Inhabited Idleness := ⟨{}⟩

/-- A period that is under way keeps its start. -/
def begin (m : Idleness) (now : Instant) : Idleness := ⟨some (m.since.getD now)⟩

def finish (_ : Idleness) : Idleness := ⟨none⟩

def isIdle (m : Idleness) : Bool := m.since.isSome

def elapsed? (m : Idleness) (now : Instant) : Option Duration := m.since.map fun start => now - start

end Idleness

/-- A clock that moves only when it is told to, in either direction. -/
structure Host where
  now : Instant
  idleness : Idleness := {}
deriving DecidableEq

namespace Host

instance : Inhabited Host := ⟨{ now := .epoch }⟩

inductive Change
  | setNow (time : Instant)
  | advance (delta : Duration)
  | goIdle
  | goBusy

def apply (h : Host) : Change → Host
  | .setNow time => { h with now := time }
  | .advance delta => { h with now := h.now + delta }
  | .goIdle => { h with idleness := h.idleness.begin h.now }
  | .goBusy => { h with idleness := h.idleness.finish }

/-- How long the host has been idle, while it is. -/
def idleFor? (h : Host) : Option Duration := h.idleness.elapsed? h.now

end Host
end Timekeeping
