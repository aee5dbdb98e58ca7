/-!
Finite tables. A key that was never set has the default value.
-/
namespace Timekeeping

structure Table (κ α : Type) where
  rows : List (κ × α) := []

namespace Table

variable {κ α : Type} [DecidableEq κ] [Inhabited α]

def getRow (k : κ) : List (κ × α) → α
  | [] => default
  | (k', a) :: rest => if k' = k then a else getRow k rest

def setRow (k : κ) (a : α) : List (κ × α) → List (κ × α)
  | [] => [(k, a)]
  | (k', b) :: rest => if k' = k then (k, a) :: rest else (k', b) :: setRow k a rest

def get (t : Table κ α) (k : κ) : α := getRow k t.rows

def set (t : Table κ α) (k : κ) (a : α) : Table κ α := ⟨setRow k a t.rows⟩

theorem getRow_setRow (k j : κ) (a : α) (rows : List (κ × α)) :
    getRow j (setRow k a rows) = if k = j then a else getRow j rows := by
  induction rows with
  | nil => simp [setRow, getRow]
  | cons row rest ih =>
    obtain ⟨k', b⟩ := row
    by_cases h : k' = k
    · subst h
      simp only [setRow, if_true, getRow]
      split <;> rfl
    · simp only [setRow, if_neg h, getRow, ih]
      by_cases hj : k' = j
      · have : ¬ k = j := fun e => h (hj.trans e.symm)
        simp [hj, this]
      · simp [hj]

/-- Setting a key changes that key alone. -/
theorem get_set (t : Table κ α) (k j : κ) (a : α) :
    (t.set k a).get j = if k = j then a else t.get j :=
  getRow_setRow k j a t.rows

end Table
end Timekeeping
