import Timekeeping.Run.Journal

/-!
Actions change the run and answer. A panic or an exhausted bound interrupts
them; what was done up to then stays done.
-/
namespace Timekeeping

/-- What a panic carries. -/
inductive Payload
  | literal (text : String)
  | text (text : String)
  | unreadable
deriving DecidableEq

def Payload.message : Payload → String
  | .literal words => words
  | .text words => words
  | .unreadable => "non-string panic payload"

inductive Interrupt
  | panic (payload : Payload)
  /-- Calls were nested too deep, or a loop went on too long. -/
  | exhausted
deriving DecidableEq

abbrev Act := EStateM Interrupt Run

/-- How a callback came back. -/
inductive Ending
  | succeeded
  | failed (message : String)
deriving DecidableEq

namespace Act

def world : Act World := fun r => .ok r.world r

/-- Changes the world and notes why. -/
def record (e : Event) (w : World) : Act Unit := fun r => .ok () (r.advance e w)

/-- The number of a new pass. -/
def nextPass : Act Nat := fun r => .ok r.passes { r with passes := r.passes + 1 }

def panic (payload : Payload) : Act α := fun r => .error (.panic payload) r

def exhausted : Act α := fun r => .error .exhausted r

/-- Takes a panic for a failure. -/
def attempt (a : Act Ending) : Act Ending := fun r =>
  match a r with
  | .ok ending r => .ok ending r
  | .error (.panic payload) r => .ok (.failed ("panicked: " ++ payload.message)) r
  | .error .exhausted r => .error .exhausted r

/-- Goes on with what a panic carries. -/
def caught (a : Act α) : Act (Except Payload α) := fun r =>
  match a r with
  | .ok x r => .ok (.ok x) r
  | .error (.panic payload) r => .ok (.error payload) r
  | .error .exhausted r => .error .exhausted r

/-- Changes the world when an action is over, interrupted or not. -/
def closing (e : Event) (f : World → World) (a : Act α) : Act α := fun r =>
  match a r with
  | .ok x r => .ok x (r.advance e (f r.world))
  | .error i r => .error i (r.advance e (f r.world))

/-- Runs a callback, taking its panic for a failure if `catching`. -/
def shield (catching : Bool) (a : Act Ending) : Act Ending := if catching then attempt a else a

/-- The run in which an action ends, interrupted or not. -/
def after (a : Act α) (r : Run) : Run :=
  match a r with
  | .ok _ r => r
  | .error _ r => r

@[simp] theorem world_bind (f : World → Act α) (r : Run) : (world >>= f) r = f r.world r := rfl

@[simp] theorem after_record (e : Event) (w : World) (r : Run) :
    after (record e w) r = r.advance e w := rfl

/-- A sequence ends where its second part ends, if the first part was not interrupted. -/
theorem after_bind (a : Act α) (f : α → Act β) (r : Run) :
    after (a >>= f) r = match a r with
      | .ok x r' => after (f x) r'
      | .error _ r' => r' := by
  simp only [after, bind, EStateM.bind]
  cases a r <;> rfl

end Act

/-- Runs a callback: the scheduler that it is handed, the callback, which call it is, and the
arguments. -/
abbrev Caller := SchedulerId → Callback → Nat → List Json → Act Ending

end Timekeeping
