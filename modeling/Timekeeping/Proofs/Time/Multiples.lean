import Timekeeping.Time.Alignment
import Timekeeping.Proofs.Time.Repeats

/-!
The first multiple of an interval after an instant. Totals are far smaller than
what a word of 128 bits holds, so it is always found; it is stored as it is unless
its seconds do not fit their word.
-/
namespace Timekeeping

theorem Ticks.total_lt (a : Ticks) :
    a.total < (Int64.maxValue.toInt + 1) * picosPerSecond + 2 ^ 64 := by
  have hsecs := Int64.toInt_le a.secs
  have hpicos := a.picos.toNat_lt
  rw [Int64.toInt_maxValue] at hsecs ⊢
  unfold total picosPerSecond
  omega

namespace Instant

/-- The least multiple of an interval above an instant, in picoseconds from the epoch. -/
def multipleAfter (now : Instant) (interval : Duration) : Int :=
  (now.total / interval.total + 1) * interval.total

/-- The key is the first multiple of the interval after now. -/
structure FirstMultiple (now : Instant) (interval : Duration) (key : Instant) : Prop where
  later : now.total < key.total
  multiple : interval.total ∣ key.total
  least : ∀ n, now.total < n → interval.total ∣ n → key.total ≤ n

variable {now key : Instant} {interval : Duration} {n : Int}

theorem dvd_multipleAfter (now : Instant) (interval : Duration) :
    interval.total ∣ now.multipleAfter interval :=
  Int.dvd_mul_left _ _

theorem lt_multipleAfter (hpositive : interval.IsPositive) :
    now.total < now.multipleAfter interval :=
  Int.lt_ediv_add_one_mul_self now.total hpositive.total_pos

theorem multipleAfter_le_add (hpositive : interval.IsPositive) :
    now.multipleAfter interval ≤ now.total + interval.total := by
  have hbelow := Int.ediv_mul_le now.total hpositive.total_pos.ne'
  unfold multipleAfter
  rw [Int.add_mul, Int.one_mul]
  omega

/-- No multiple lies between an instant and the first one after it. -/
theorem multipleAfter_le (hpositive : interval.IsPositive) (hlater : now.total < n)
    (hmultiple : interval.total ∣ n) : now.multipleAfter interval ≤ n := by
  obtain ⟨k, rfl⟩ := hmultiple
  have hcount : now.total / interval.total < k :=
    Int.ediv_lt_of_lt_mul hpositive.total_pos (by rw [Int.mul_comm]; exact hlater)
  unfold multipleAfter
  rw [Int.mul_comm]
  exact Int.mul_le_mul_of_nonneg_left hcount hpositive.total_pos.le

theorem checkTotal_of_le (hlow : Duration.minTotal ≤ n) (hhigh : n ≤ Duration.maxTotal) :
    checkTotal n = some n :=
  if_pos ⟨hlow, hhigh⟩

/-- The words are wide enough for every instant and every interval. -/
theorem nextMultiple?_eq (hpositive : interval.IsPositive) :
    nextMultiple? now.total interval.total = some (now.multipleAfter interval) := by
  have hunit := hpositive.total_pos
  have hlow := now.toTicks.le_total
  have hhigh := now.toTicks.total_lt
  have hinterval := interval.toTicks.total_lt
  have hafter : now.total < now.multipleAfter interval := lt_multipleAfter hpositive
  have hnear : now.multipleAfter interval ≤ now.total + interval.total :=
    multipleAfter_le_add hpositive
  rw [Int64.toInt_minValue] at hlow
  rw [Int64.toInt_maxValue] at hhigh hinterval
  unfold picosPerSecond at hlow hhigh hinterval
  have hcountLow : Duration.minTotal - 1 ≤ now.total / interval.total := by
    rw [Int.le_ediv_iff_mul_le hunit]
    have hscale : (Duration.minTotal - 1) * interval.total ≤ (Duration.minTotal - 1) * 1 :=
      Int.mul_le_mul_of_nonpos_left (by decide) hunit
    unfold Duration.minTotal at hscale ⊢
    omega
  have hcountHigh : now.total / interval.total ≤ Duration.maxTotal - 1 := by
    refine Int.le_of_lt_add_one (Int.ediv_lt_of_lt_mul hunit ?_)
    have hscale : (Duration.maxTotal - 1 + 1) * 1 ≤ (Duration.maxTotal - 1 + 1) * interval.total :=
      Int.mul_le_mul_of_nonneg_left hunit (by decide)
    unfold Duration.maxTotal at hscale ⊢
    omega
  have hcount := checkTotal_of_le (n := now.total / interval.total + 1) (by omega) (by omega)
  have hmultiple : checkTotal (now.multipleAfter interval) = some (now.multipleAfter interval) := by
    refine checkTotal_of_le ?_ ?_
    · unfold Duration.minTotal
      omega
    · unfold Duration.maxTotal
      omega
  unfold nextMultiple?
  rw [hcount]
  exact hmultiple

theorem nextAligned?_eq (hpositive : interval.IsPositive) :
    now.nextAligned? interval = some (ofTotal (now.multipleAfter interval)) := by
  unfold nextAligned?
  rw [if_pos hpositive, nextMultiple?_eq hpositive]
  rfl

/-- The first multiple that can be stored is stored. -/
theorem firstMultiple_ofTotal (hpositive : interval.IsPositive)
    (hstored : Ticks.Representable (now.multipleAfter interval)) :
    now.FirstMultiple interval (ofTotal (now.multipleAfter interval)) := by
  have htotal : (ofTotal (now.multipleAfter interval)).total = now.multipleAfter interval :=
    Ticks.total_ofTotal hstored
  constructor
  · rw [htotal]
    exact lt_multipleAfter hpositive
  · rw [htotal]
    exact dvd_multipleAfter now interval
  · intro n hlater hmultiple
    rw [htotal]
    exact multipleAfter_le hpositive hlater hmultiple

end Instant

/-- An aligned timer repeats at the first multiple after now, wherever it was due before and however
many repeats may follow at once. -/
theorem World.followingRepeat_of_aligned {interval : Duration} (now key : Instant)
    (maxRepeats : Option UInt32) (hpositive : interval.IsPositive) :
    followingRepeat now key interval maxRepeats true =
      .ofTotal (now.multipleAfter interval) := by
  unfold followingRepeat
  dsimp only
  rw [if_pos rfl, Instant.nextAligned?_eq hpositive]
  rfl

/-- A timer that is due comes to an instant that lies an interval later or after now, wherever its
repeats fall and however many of them were missed. -/
theorem World.followingRepeat_moves_on {now key : Instant} {interval : Duration}
    (maxRepeats : Option UInt32) (aligned : Bool) (hpositive : interval.IsPositive)
    (hdue : key.total ≤ now.total) (hspan : Ticks.Representable (now.total - key.total))
    (hnext : Ticks.Representable (now.total + interval.total)) :
    (followingRepeat now key interval maxRepeats aligned).total = key.total + interval.total ∨
      now.total < (followingRepeat now key interval maxRepeats aligned).total := by
  have hunit := hpositive.total_pos
  have hlow := key.toTicks.le_total
  cases aligned with
  | true =>
    right
    have hafter : now.total < now.multipleAfter interval := Instant.lt_multipleAfter hpositive
    have hnear : now.multipleAfter interval ≤ now.total + interval.total :=
      Instant.multipleAfter_le_add hpositive
    have hstored : Ticks.Representable (now.multipleAfter interval) :=
      .of_le_of_le hlow (by omega) hnear hnext
    rw [followingRepeat_of_aligned _ _ _ hpositive]
    exact (Ticks.total_ofTotal hstored).symm ▸ hafter
  | false =>
    by_cases hskips : ∃ limit, maxRepeats = some limit ∧ key ≤ now ∧
        limit.toNat < now.missed key interval
    · right
      obtain ⟨limit, rfl, hle, hbeyond⟩ := hskips
      have hafter : now.total < key.total + (now.missed key interval + 1) * interval.total :=
        (Instant.lt_add_mul_iff hpositive _).mpr (Int.le_refl _)
      have hmissed : now.missed key interval * interval.total ≤ now.total - key.total :=
        Int.ediv_mul_le _ hunit.ne'
      have hslot : Ticks.Representable
          (key.total + (now.missed key interval + 1) * interval.total) := by
        rw [Int.add_mul, Int.one_mul] at hafter ⊢
        exact .of_le_of_le hlow (by omega) (by omega) hnext
      rw [total_followingRepeat_of_beyond hpositive hspan hle hslot hbeyond]
      exact hafter
    · left
      have hstored : Ticks.Representable (key.total + interval.total) :=
        .of_le_of_le hlow (by omega) (by omega) hnext
      unfold followingRepeat
      dsimp only
      rw [if_neg Bool.false_ne_true]
      cases maxRepeats with
      | none => exact Instant.total_add hstored
      | some limit =>
        dsimp only
        rw [Instant.missed_eq_wholeUnits hpositive hspan, if_neg]
        · exact Instant.total_add hstored
        · rintro ⟨hnot, hbeyond⟩
          exact hskips ⟨limit, rfl, Ticks.not_lt.mp hnot, hbeyond⟩

/-- So it comes to a later instant, before which fewer repeats lie. -/
theorem World.lt_total_followingRepeat {now key : Instant} {interval : Duration}
    (maxRepeats : Option UInt32) (aligned : Bool) (hpositive : interval.IsPositive)
    (hdue : key.total ≤ now.total) (hspan : Ticks.Representable (now.total - key.total))
    (hnext : Ticks.Representable (now.total + interval.total)) :
    key.total < (followingRepeat now key interval maxRepeats aligned).total ∧
      now.missed (followingRepeat now key interval maxRepeats aligned) interval <
        now.missed key interval := by
  have hunit := hpositive.total_pos
  rcases followingRepeat_moves_on maxRepeats aligned hpositive hdue hspan hnext with hstep | hafter
  · rw [← Int.one_mul interval.total] at hstep
    have hmissed := Instant.missed_of_total_eq now hpositive hstep
    omega
  · have hcaught : ¬ 0 ≤ now.missed (followingRepeat now key interval maxRepeats aligned) interval :=
      (Instant.missed_nonneg_iff hpositive).not.mpr (Int.not_le.mpr hafter)
    have hmissed := (Instant.missed_nonneg_iff hpositive).mpr hdue
    omega

end Timekeeping
