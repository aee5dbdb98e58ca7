import Timekeeping.Time.Ticks
import Timekeeping.Proofs.Text.Digits
import Mathlib.Algebra.Order.Field.Rat
import Mathlib.Tactic.FieldSimp

/-!
The decimal form of totals. A fraction is padded to twelve places and loses the zeros at its end, which
leaves the number that it says as it is.
-/
namespace Timekeeping.Ticks

open Text

/-- Digits of which the last is not zero, and that say as a fraction how much of a second the picoseconds
are. -/
structure Places (picos : Nat) (fraction : List Char) : Prop where
  digits : Digits fraction
  last : fraction.getLast? ≠ some '0'
  value : (ofDigits fraction : Rat) / 10 ^ fraction.length = picos / 1000000000000

variable {picos : Nat}

theorem exists_padded (h : picos < 1000000000000) :
    ∃ padded : List Char, Digits padded ∧ padded.length = 12 ∧ ofDigits padded = picos ∧
      fractionDigits picos = (padded.reverse.dropWhile (· == '0')).reverse := by
  have hwidth : (Nat.toDigits 10 picos).length ≤ 12 :=
    (Nat.length_toDigits_le_iff (by decide) (by decide)).mpr h
  refine ⟨List.replicate (12 - (Nat.toDigits 10 picos).length) '0' ++ Nat.toDigits 10 picos, ?_, ?_, ?_,
    rfl⟩
  · intro c hc
    rcases List.mem_append.mp hc with hc | hc
    · rw [List.eq_of_mem_replicate hc]
      decide
    · exact digits_toDigits picos c hc
  · rw [List.length_append, List.length_replicate]
    omega
  · rw [ofDigits_append, ofDigits_replicate, ofDigits_toDigits]
    omega

/-- The zeros that are cut off at the end stand for as many places. -/
theorem exists_trimmed_eq (padded : List Char) :
    ∃ k, (padded.reverse.dropWhile (· == '0')).reverse ++ List.replicate k '0' = padded := by
  obtain ⟨zeros, hzeros, hpadded⟩ := exists_dropWhile_append_eq (· == '0') padded
  refine ⟨zeros.length, ?_⟩
  rw [← List.eq_replicate_of_mem fun c hc => by simpa using hzeros c hc]
  exact hpadded

theorem places_fractionDigits (h : picos < 1000000000000) : Places picos (fractionDigits picos) := by
  obtain ⟨padded, hdigits, hlength, hvalue, htrimmed⟩ := exists_padded h
  obtain ⟨k, hk⟩ := exists_trimmed_eq padded
  rw [← htrimmed] at hk
  constructor
  · intro c hc
    exact hdigits c (hk ▸ List.mem_append_left _ hc)
  · rw [htrimmed, List.getLast?_reverse]
    have hhead := List.head?_dropWhile_not (· == '0') padded.reverse
    intro hlast
    rw [hlast] at hhead
    simp at hhead
  · rw [← hk, ofDigits_append, ofDigits_replicate, List.length_replicate, Nat.add_zero] at hvalue
    rw [← hk, List.length_append, List.length_replicate] at hlength
    generalize fractionDigits picos = fraction at *
    have hpower : (1000000000000 : Rat) = 10 ^ fraction.length * 10 ^ k := by
      rw [← pow_add, hlength]
      norm_num
    rw [← hvalue, hpower]
    push_cast
    field_simp

theorem fractionDigits_eq_nil_iff (h : picos < 1000000000000) :
    fractionDigits picos = [] ↔ picos = 0 := by
  constructor
  · intro hnil
    have hplaces := (places_fractionDigits h).value
    rw [hnil] at hplaces
    have hvalue : (picos : Rat) / 1000000000000 = 0 := by simpa [ofDigits] using hplaces.symm
    exact_mod_cast (div_eq_zero_iff.mp hvalue).resolve_right (by norm_num)
  · rintro rfl
    decide

/-- The parts of a printed total: a sign, the digits of its whole seconds, and behind a point, unless
there are none, those of the rest of its size. -/
structure Printed (n : Int) (whole fraction : List Char) : Prop where
  text : decimalDigits n =
    (if n < 0 then ['-'] else []) ++ whole ++ (if fraction = [] then [] else '.' :: fraction)
  whole_ne_nil : whole ≠ []
  whole_digits : Digits whole
  fraction_digits : Digits fraction
  last : fraction.getLast? ≠ some '0'
  value : (ofDigits whole : Rat) + ofDigits fraction / 10 ^ fraction.length =
    |(n : Rat)| / 1000000000000

theorem exists_printed (n : Int) : ∃ whole fraction, Printed n whole fraction := by
  have hless : n.natAbs % 1000000000000 < 1000000000000 := Nat.mod_lt _ (by decide)
  have hplaces := places_fractionDigits hless
  refine ⟨_, _, ⟨?_, Nat.toDigits_ne_nil, digits_toDigits (n.natAbs / 1000000000000), hplaces.digits,
    hplaces.last, ?_⟩⟩
  · simp only [fractionDigits_eq_nil_iff hless]
    rfl
  · have hsplit := Nat.div_add_mod n.natAbs 1000000000000
    have hsize : ((1000000000000 * (n.natAbs / 1000000000000) + n.natAbs % 1000000000000 : Nat) : Rat) =
        |(n : Rat)| := by
      rw [hsplit, Nat.cast_natAbs, Int.cast_abs]
    rw [hplaces.value, ofDigits_toDigits, ← hsize]
    push_cast
    field_simp

end Timekeeping.Ticks
