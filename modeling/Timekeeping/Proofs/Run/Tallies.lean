import Timekeeping.Proofs.Run.Steps

/-!
How often something happened to a timer, counted in a journal.
-/
namespace Timekeeping

/-- How often the timer was queued on request. -/
def armings (t : TimerId) (journal : List Moment) : Nat := journal.countP fun m => m.event.Arms t

/-- How often the timer's callback was started through it. -/
def starts (t : TimerId) (journal : List Moment) : Nat := journal.countP fun m => m.event.Starts t

/-- How often the timer was taken out of its queue because it was cancelled. -/
def cancellations (t : TimerId) (journal : List Moment) : Nat :=
  journal.countP fun m => m.event.Cancels t

variable {t : TimerId} {m : Moment} {ms : List Moment}

theorem armings_eq_zero (h : ∀ m ∈ ms, ¬ m.event.Arms t) : armings t ms = 0 :=
  List.countP_eq_zero.mpr fun m hm => by simpa using h m hm

theorem starts_eq_zero_iff : starts t ms = 0 ↔ ∀ m ∈ ms, ¬ m.event.Starts t := by
  simp [starts, List.countP_eq_zero]

theorem starts_append (t : TimerId) (later earlier : List Moment) :
    starts t (later ++ earlier) = starts t later + starts t earlier :=
  List.countP_append

theorem starts_cons (t : TimerId) (m : Moment) (ms : List Moment) :
    starts t (m :: ms) = starts t ms + if m.event.Starts t then 1 else 0 := by
  simp [starts, List.countP_cons]

/-- A timer that does not start after it has started starts at most once. -/
theorem starts_le_one (h : ∀ later m earlier, ms = later ++ m :: earlier → m.event.Starts t →
    ∀ m' ∈ earlier, ¬ m'.event.Starts t) : starts t ms ≤ 1 := by
  induction ms with
  | nil => exact Nat.zero_le 1
  | cons m rest ih =>
    rw [starts_cons]
    split
    · rename_i hstarts
      rw [starts_eq_zero_iff.mpr (h [] m rest rfl hstarts)]
    · exact ih fun later m' earlier hsplit => h (m :: later) m' earlier (by rw [hsplit]; rfl)

end Timekeeping
