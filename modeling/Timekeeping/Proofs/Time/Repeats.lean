import Timekeeping.Scheduler.Firing
import Timekeeping.Proofs.Time.Normality
import Mathlib.Tactic.Ring

/-!
The instants at which a repeating timer is due, counted in intervals. Either the
next one follows the last, or all that were missed are skipped at once; both ways
lead to the first that lies in the future.
-/
namespace Timekeeping

namespace Ticks

theorem le_total (a : Ticks) : Int64.minValue.toInt * picosPerSecond ≤ a.total := by
  have hsecs := Int64.minValue_le_toInt a.secs
  unfold total picosPerSecond
  omega

theorem Representable.of_le_of_le {l m n : Int} (hl : Int64.minValue.toInt * picosPerSecond ≤ l)
    (hlm : l ≤ m) (hmn : m ≤ n) (hn : Representable n) : Representable m :=
  ⟨Int.le_trans hl hlm, Int.lt_of_le_of_lt hmn hn.2⟩

end Ticks

namespace Duration

theorem IsPositive.total_pos {a : Duration} (h : a.IsPositive) : 0 < a.total := by
  rw [isPositive_iff] at h
  unfold Ticks.total picosPerSecond
  omega

theorem total_times {a : Duration} {count : Int} (h : Ticks.Representable (a.total * count)) :
    (a.times count).total = a.total * count := by
  have hclamp : clampTotal (a.total * count) = a.total * count := by
    unfold Ticks.Representable picosPerSecond at h
    rw [Int64.toInt_minValue, Int64.toInt_maxValue] at h
    unfold clampTotal minTotal maxTotal
    omega
  unfold times
  rw [hclamp]
  exact Ticks.total_ofTotal h

end Duration

namespace Instant

theorem total_add {t : Instant} {d : Duration} (h : Ticks.Representable (t.total + d.total)) :
    (t + d).total = t.total + d.total :=
  Ticks.total_ofTotal h

/-- How many whole intervals lie between an instant and now, rounded down. -/
def missed (now key : Instant) (interval : Duration) : Int :=
  (now.total - key.total) / interval.total

variable {now key next : Instant} {interval : Duration}

theorem missed_eq_wholeUnits (hpositive : interval.IsPositive)
    (hspan : Ticks.Representable (now.total - key.total)) :
    (now - key).wholeUnits interval = now.missed key interval := by
  unfold Duration.wholeUnits
  rw [if_pos hpositive]
  exact congrArg (· / interval.total) (Ticks.total_ofTotal hspan)

theorem missed_nonneg_iff (hpositive : interval.IsPositive) :
    0 ≤ now.missed key interval ↔ key.total ≤ now.total := by
  unfold missed
  rw [Int.ediv_nonneg_iff_of_pos hpositive.total_pos]
  omega

/-- An instant that lies `n` intervals later has `n` fewer of them before now. -/
theorem missed_of_total_eq (now : Instant) {n : Int} (hpositive : interval.IsPositive)
    (hnext : next.total = key.total + n * interval.total) :
    now.missed next interval = now.missed key interval - n := by
  have hsub : now.total - next.total = now.total - key.total + interval.total * (-n) := by
    rw [hnext]
    ring
  unfold missed
  rw [hsub, Int.add_mul_ediv_left _ _ hpositive.total_pos.ne']
  ring

/-- The first instant of the grid after now, counted from the key. -/
theorem lt_add_mul_iff (hpositive : interval.IsPositive) (n : Int) :
    now.total < key.total + n * interval.total ↔ now.missed key interval + 1 ≤ n := by
  unfold missed
  rw [Int.add_one_le_iff, Int.ediv_lt_iff_lt_mul hpositive.total_pos]
  omega

end Instant

namespace World

variable {now key : Instant} {interval : Duration} {maxRepeats : Option UInt32}

theorem followingRepeat_normal (now key : Instant) (interval : Duration)
    (maxRepeats : Option UInt32) (aligned : Bool) :
    (followingRepeat now key interval maxRepeats aligned).Normal := by
  unfold followingRepeat
  dsimp only
  split
  · cases hnext : now.nextAligned? interval with
    | none => exact Ticks.ofTotal_normal _
    | some next => exact Instant.normal_of_nextAligned? hnext
  · exact Ticks.ofTotal_normal _

/-- While no more repeats were missed than allowed, they follow one by one. -/
theorem total_followingRepeat_of_within (hpositive : interval.IsPositive)
    (hspan : Ticks.Representable (now.total - key.total))
    (hnext : Ticks.Representable (key.total + interval.total))
    (hwithin : ∀ limit, maxRepeats = some limit → now.missed key interval ≤ limit.toNat) :
    (followingRepeat now key interval maxRepeats false).total = key.total + interval.total := by
  unfold followingRepeat
  dsimp only
  rw [if_neg Bool.false_ne_true]
  cases maxRepeats with
  | none => exact Instant.total_add hnext
  | some limit =>
    have hlimit := hwithin limit rfl
    dsimp only
    rw [Instant.missed_eq_wholeUnits hpositive hspan, if_neg (by omega)]
    exact Instant.total_add hnext

/-- If more were missed than allowed, the next is the first that was not. -/
theorem total_followingRepeat_of_beyond {limit : UInt32} (hpositive : interval.IsPositive)
    (hspan : Ticks.Representable (now.total - key.total)) (hle : key ≤ now)
    (hnext : Ticks.Representable (key.total + (now.missed key interval + 1) * interval.total))
    (hbeyond : limit.toNat < now.missed key interval) :
    (followingRepeat now key interval (some limit) false).total =
      key.total + (now.missed key interval + 1) * interval.total := by
  have hunit := hpositive.total_pos
  have hmissed : 0 ≤ now.missed key interval := by omega
  have hproduct : 0 ≤ interval.total * now.missed key interval :=
    Int.mul_nonneg hunit.le hmissed
  have hcaught : Ticks.Representable (interval.total * now.missed key interval) :=
    .of_le_of_le (by decide) hproduct (Int.mul_ediv_self_le hunit.ne') hspan
  have hstep : (now.missed key interval + 1) * interval.total =
      interval.total * now.missed key interval + interval.total := by ring
  rw [hstep, ← Int.add_assoc] at hnext
  have hcaught' : Ticks.Representable (key.total + interval.total * now.missed key interval) :=
    .of_le_of_le key.toTicks.le_total (by omega) (by omega) hnext
  have hkey : (key + interval.times (now.missed key interval)).total =
      key.total + interval.total * now.missed key interval := by
    rw [Instant.total_add, Duration.total_times hcaught]
    rw [Duration.total_times hcaught]
    exact hcaught'
  have hreached : ¬ now < key ∧ (limit.toNat : Int) < now.missed key interval :=
    ⟨fun hlt => Ticks.not_lt.mpr hle hlt, hbeyond⟩
  unfold followingRepeat
  dsimp only
  rw [if_neg Bool.false_ne_true, Instant.missed_eq_wholeUnits hpositive hspan, if_pos hreached,
    hstep, Instant.total_add, hkey, Int.add_assoc]
  rw [hkey]
  exact hnext

/-- How often a timer of which so many repeats were missed still runs, the first time included: once
if these are more than allowed, and otherwise once for each. -/
def runsLeft (maxRepeats : Option UInt32) (missed : Int) : Nat :=
  match maxRepeats with
  | some limit => if (limit.toNat : Int) < missed then 1 else (missed + 1).toNat
  | none => (missed + 1).toNat

theorem runsLeft_of_within {missed : Int} (hwithin : ∀ limit, maxRepeats = some limit →
    missed ≤ limit.toNat) : runsLeft maxRepeats missed = (missed + 1).toNat := by
  cases maxRepeats with
  | none => rfl
  | some limit =>
    have hlimit := hwithin limit rfl
    exact if_neg (by omega)

theorem runsLeft_le (maxRepeats : Option UInt32) {missed : Int} (h : -1 ≤ missed) :
    (runsLeft maxRepeats missed : Int) ≤ missed + 1 := by
  unfold runsLeft
  split
  · split <;> omega
  · omega

theorem runsLeft_le_limit (limit : UInt32) (missed : Int) :
    runsLeft (some limit) missed ≤ limit.toNat + 1 := by
  unfold runsLeft
  dsimp only
  split <;> omega

theorem runsLeft_eq_zero_iff {missed : Int} : runsLeft maxRepeats missed = 0 ↔ missed < 0 := by
  unfold runsLeft
  split
  · split <;> omega
  · omega

/-- After a repeat some of the missed ones are left, and the timer runs once less. -/
theorem exists_followingRepeat (hpositive : interval.IsPositive)
    (hmissed : 0 ≤ now.missed key interval)
    (hspan : Ticks.Representable (now.total - key.total))
    (hslot : Ticks.Representable (key.total + (now.missed key interval + 1) * interval.total))
    (hle : ∀ limit, maxRepeats = some limit → limit.toNat < now.missed key interval → key ≤ now) :
    ∃ n, (followingRepeat now key interval maxRepeats false).total =
        key.total + n * interval.total ∧ 1 ≤ n ∧ n ≤ now.missed key interval + 1 ∧
      (∀ limit, maxRepeats = some limit → now.missed key interval - n ≤ limit.toNat) ∧
      runsLeft maxRepeats (now.missed key interval) =
        runsLeft maxRepeats (now.missed key interval - n) + 1 := by
  by_cases hwithin : ∀ limit, maxRepeats = some limit → now.missed key interval ≤ limit.toNat
  · have hunit := hpositive.total_pos
    have hmore : 0 ≤ now.missed key interval * interval.total := Int.mul_nonneg hmissed hunit.le
    have hstep : (now.missed key interval + 1) * interval.total =
        now.missed key interval * interval.total + interval.total := by ring
    have hnext : Ticks.Representable (key.total + interval.total) := by
      have hlow := key.toTicks.le_total
      exact .of_le_of_le hlow (by omega) (by omega) hslot
    have hwithin' : ∀ limit, maxRepeats = some limit →
        now.missed key interval - 1 ≤ limit.toNat := by
      intro limit hlimit
      have hle := hwithin limit hlimit
      omega
    refine ⟨1, ?_, Int.le_refl 1, by omega, hwithin', ?_⟩
    · rw [total_followingRepeat_of_within hpositive hspan hnext hwithin, Int.one_mul]
    · rw [runsLeft_of_within hwithin, runsLeft_of_within hwithin']
      omega
  · push Not at hwithin
    obtain ⟨limit, rfl, hbeyond⟩ := hwithin
    refine ⟨_, total_followingRepeat_of_beyond hpositive hspan (hle limit rfl hbeyond) hslot hbeyond,
      by omega, Int.le_refl _, fun limit' _ => by omega, ?_⟩
    unfold runsLeft
    dsimp only
    rw [if_pos hbeyond, if_neg (by omega)]
    omega

end World
end Timekeeping
