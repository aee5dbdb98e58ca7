import Timekeeping.Run.Operation

/-!
What callbacks do. A program performs operations, each chosen by the world and
by the answers so far, and comes back or panics.
-/
namespace Timekeeping

open Act

inductive Program
  | finish (ending : Ending)
  | panic (payload : Payload)
  /-- Performs an operation and goes on with its answer. A labelled step is noted in the journal. -/
  | perform (label : Option String) (operation : World → Operation) (next : Reply → Program)
  /-- Performs an operation and goes on with its answer or with the panic that left it. -/
  | rescue (operation : World → Operation) (next : Except Payload Reply → Program)

/-- Notes the answer of a labelled step. -/
def noteStep (key number : Nat) (label : Option String) (reply : Reply) (w : World) : Act Unit :=
  match label with
  | some label => record (.stepped key number label reply) w
  | none => pure ()

/-- Runs the program of the `number`th call of a callback. -/
def Program.run (call : Caller) (key number : Nat) : Program → Act Ending
  | finish ending => return ending
  | panic payload => Act.panic payload
  | perform label operation next => do
    let reply ← Timekeeping.perform call (operation (← world))
    noteStep key number label reply (← world)
    (next reply).run call key number
  | rescue operation next => do
    let result ← caught (Timekeeping.perform call (operation (← world)))
    (next result).run call key number

/-- The program of each call of a callback: its key, which call it is, the scheduler that it is
handed, and the arguments. -/
abbrev Behaviour := Nat → Nat → SchedulerId → List Json → Program

/-- Runs callbacks whose calls are nested less than `depth` deep. -/
def caller (behaviour : Behaviour) : Nat → Caller
  | 0 => fun _ _ _ _ => exhausted
  | depth + 1 => fun s callback number args =>
    (behaviour callback.key number s args).run (caller behaviour depth) callback.key number

/-- Performs one operation from outside all callbacks. -/
def execute (behaviour : Behaviour) (depth : Nat) (operation : Operation) : Act Reply :=
  perform (caller behaviour depth) operation

end Timekeeping
