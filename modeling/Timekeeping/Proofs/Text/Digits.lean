import Timekeeping.Proofs.Text.Trimming
import Mathlib.Data.List.Induction
import Mathlib.Tactic.IntervalCases
import Mathlib.Tactic.Ring

/-!
Decimal digits. What natural numbers are written with stands for them again, and only zero starts
with a zero.
-/
namespace Timekeeping.Text

/-- All characters are digits. -/
def Digits (cs : List Char) : Prop := ∀ c ∈ cs, isDigit c

variable {c : Char} {cs ds : List Char}

theorem isDigit_iff : isDigit c ↔ 48 ≤ c.toNat ∧ c.toNat ≤ 57 := by
  have hlow : '0' ≤ c ↔ 48 ≤ c.toNat := UInt32.le_iff_toNat_le
  have hhigh : c ≤ '9' ↔ c.toNat ≤ 57 := UInt32.le_iff_toNat_le
  unfold isDigit digit?
  simp only [hlow, hhigh, Option.isSome_ite]

theorem digit?_of_isDigit (h : isDigit c) : digit? c = some (c.toNat - 48) := by
  unfold isDigit digit? at *
  split at h
  · next hc => rw [if_pos hc]; rfl
  · cases h

theorem toLower_of_isDigit (h : isDigit c) : c.toLower = c := by
  rw [isDigit_iff] at h
  apply Char.toNat_inj.mp
  rw [toNat_toLower, if_neg (by omega)]

theorem not_isDigit_of_isBlank (h : isBlank c) : ¬ isDigit c := by
  rw [isDigit_iff]
  simp [isBlank] at h
  omega

theorem Digits.not_isBlank (h : Digits cs) : ∀ c ∈ cs, ¬ isBlank c :=
  fun c hc hblank => not_isDigit_of_isBlank hblank (h c hc)

theorem Digits.not_mem (h : Digits cs) (hc : ¬ isDigit c) : c ∉ cs := fun hmem => hc (h c hmem)

theorem ofDigits_append_singleton (cs : List Char) (c : Char) :
    ofDigits (cs ++ [c]) = ofDigits cs * 10 + (digit? c).getD 0 := by
  simp [ofDigits]

theorem ofDigits_append (cs ds : List Char) :
    ofDigits (cs ++ ds) = ofDigits cs * 10 ^ ds.length + ofDigits ds := by
  induction ds using List.reverseRecOn with
  | nil => simp [ofDigits]
  | append_singleton ds d ih =>
    rw [← List.append_assoc, ofDigits_append_singleton, ofDigits_append_singleton, ih,
      List.length_append, List.length_singleton, pow_succ]
    ring

theorem ofDigits_replicate (k : Nat) : ofDigits (List.replicate k '0') = 0 := by
  induction k with
  | zero => rfl
  | succ k ih =>
    rw [List.replicate_succ', ofDigits_append_singleton, ih]
    rfl

theorem digit?_digitChar {n : Nat} (h : n < 10) : digit? n.digitChar = some n := by
  interval_cases n <;> rfl

/-- A number is written with digits that stand for it. -/
theorem digits_toDigits (n : Nat) : Digits (Nat.toDigits 10 n) := by
  intro c hc
  have hdigit := Nat.isDigit_of_mem_toDigits (by decide) (by decide) hc
  rw [isDigit_iff]
  simp only [Char.isDigit, Bool.and_eq_true, decide_eq_true_eq] at hdigit
  exact ⟨UInt32.le_iff_toNat_le.mp hdigit.1, UInt32.le_iff_toNat_le.mp hdigit.2⟩

theorem exists_toDigits_eq_cons (n : Nat) : ∃ d ds, Nat.toDigits 10 n = d :: ds ∧ isDigit d := by
  obtain ⟨d, ds, hcons⟩ := List.exists_cons_of_ne_nil (Nat.toDigits_ne_nil (n := n) (b := 10))
  exact ⟨d, ds, hcons, digits_toDigits n d (by simp [hcons])⟩

theorem ofDigits_toDigits (n : Nat) : ofDigits (Nat.toDigits 10 n) = n := by
  induction n using Nat.strongRecOn with
  | ind n ih =>
    rw [Nat.toDigits_eq_if (by decide)]
    split
    · next h => simp [ofDigits, digit?_digitChar h]
    · next h =>
      rw [ofDigits_append_singleton, ih (n / 10) (by omega),
        digit?_digitChar (Nat.mod_lt n (by decide)), Option.getD_some]
      omega

/-- No number but zero starts with a zero. -/
theorem eq_zero_of_toDigits_eq_cons {n : Nat} (h : Nat.toDigits 10 n = '0' :: cs) : n = 0 := by
  induction n using Nat.strongRecOn generalizing cs with
  | ind n ih =>
    rw [Nat.toDigits_eq_if (by decide)] at h
    split at h
    · next hn =>
      have hzero : n.digitChar = '0' := (List.cons.inj h).1
      exact Option.some.inj ((digit?_digitChar hn).symm.trans (by rw [hzero]; rfl))
    · next hn =>
      cases hfront : Nat.toDigits 10 (n / 10) with
      | nil => exact absurd hfront Nat.toDigits_ne_nil
      | cons d ds =>
        rw [hfront, List.cons_append] at h
        obtain ⟨rfl, -⟩ := List.cons.inj h
        have := ih (n / 10) (by omega) hfront
        omega

end Timekeeping.Text
