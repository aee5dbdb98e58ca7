import Timekeeping.Proofs.Time.Ordering
import Timekeeping.Time.Civil

/-!
Local days and the years of the calendar. Counted from March, the leap day of a year is its last, so
the days before a year are its number times 365 and the leap days of all years before. The year of a
date is therefore the last one that has begun by its day, and the instants that have a date are those
of the years from -9999 to 9999.
-/
namespace Timekeeping.Civil

/-- The first of March of a year, in days after the first of January 1970. -/
def firstOfMarch (year : Int) : Int := 365 * year + year / 4 - year / 100 + year / 400 - 719468

/-- The first of January of a year. -/
def newYear (year : Int) : Int := firstOfMarch (year - 1) + 306

/-- The year of a day, in a cycle of 400 years that begins in March, begins with or before the day
and has at most 366 days. -/
theorem yearOfCycle_bounds {day year : Nat} (hday : day < 146097)
    (hyear : (day - day / 1460 + day / 36524 - day / 146096) / 365 = year) :
    year < 400 ∧ 365 * year + year / 4 - year / 100 ≤ day ∧
      day ≤ 365 * year + year / 4 - year / 100 + 365 := by
  have hcycle : day / 146096 = day / 36524 / 4 := by omega
  -- The last day of the cycle is a leap day of its own, after four full centuries.
  have hcentury : day / 36524 = 4 ∧ day = 146096 ∧ year / 100 = 3 ∨
      day / 36524 < 4 ∧ year / 100 = day / 36524 := by omega
  rcases hcentury with ⟨-, hlast, hthird⟩ | ⟨hfull, hsame⟩
  · omega
  · refine ⟨?_, ?_, ?_⟩ <;> omega

theorem firstOfMarch_cycle (cycle : Int) {year : Nat} (h : year < 400) :
    firstOfMarch (cycle * 400 + year) =
      cycle * 146097 + (365 * year + year / 4 - year / 100 : Nat) - 719468 := by
  unfold firstOfMarch
  omega

theorem firstOfMarch_add_one (year : Int) :
    firstOfMarch year + 365 ≤ firstOfMarch (year + 1) ∧
      firstOfMarch (year + 1) ≤ firstOfMarch year + 366 := by
  unfold firstOfMarch
  omega

/-- January and February are the days from the 306th of March's year on. -/
theorem month_le_two_iff {day : Nat} (h : day ≤ 365) :
    (if (5 * day + 2) / 153 < 10 then (5 * day + 2) / 153 + 3 else (5 * day + 2) / 153 - 9) ≤ 2 ↔
      ¬ day < 306 := by
  split <;> omega

theorem exists_dayOfYear (days : Int) : ∃ (year : Int) (day : Nat),
    days = firstOfMarch year + day ∧ day ≤ 365 ∧
      (Date.ofDays days).year = if day < 306 then year else year + 1 := by
  have hday : ((days + 719468) % 146097).toNat < 146097 := by omega
  have hsplit : days = (days + 719468) / 146097 * 146097 +
      ((days + 719468) % 146097).toNat - 719468 := by omega
  unfold Date.ofDays
  dsimp only
  generalize (days + 719468) / 146097 = cycle at *
  generalize ((days + 719468) % 146097).toNat = day at *
  generalize hyear : (day - day / 1460 + day / 36524 - day / 146096) / 365 = year
  obtain ⟨hcycle, hlow, hhigh⟩ := yearOfCycle_bounds hday hyear
  have hrest : day - (365 * year + year / 4 - year / 100) ≤ 365 := by omega
  refine ⟨cycle * 400 + year, day - (365 * year + year / 4 - year / 100), ?_, hrest, ?_⟩
  · rw [firstOfMarch_cycle cycle hcycle]
    omega
  · have hmonth := month_le_two_iff hrest
    by_cases h : day - (365 * year + year / 4 - year / 100) < 306
    · rw [if_pos h, if_neg (by rw [hmonth]; exact not_not.mpr h)]
    · rw [if_neg h, if_pos (hmonth.mpr h)]

theorem newYear_mono {y z : Int} (h : y ≤ z) : newYear y ≤ newYear z := by
  unfold newYear firstOfMarch
  omega

/-- The year of a date has begun by its day, and the next one has not. -/
theorem newYear_year_le (days : Int) :
    newYear (Date.ofDays days).year ≤ days ∧ days < newYear ((Date.ofDays days).year + 1) := by
  obtain ⟨march, day, rfl, hday, hyear⟩ := exists_dayOfYear days
  have hnext := firstOfMarch_add_one march
  have hlast := firstOfMarch_add_one (march - 1)
  rw [Int.sub_add_cancel] at hlast
  rw [hyear]
  unfold newYear
  rw [Int.add_sub_cancel]
  split
  · omega
  · rw [Int.add_sub_cancel]
    omega

theorem le_year_iff {year days : Int} : year ≤ (Date.ofDays days).year ↔ newYear year ≤ days := by
  obtain ⟨hbegan, hends⟩ := newYear_year_le days
  constructor
  · intro hle
    exact Int.le_trans (newYear_mono hle) hbegan
  · intro hle
    by_contra hnot
    have hmono := newYear_mono (Int.add_one_le_iff.mpr (Int.not_le.mp hnot))
    omega

/-- The seconds that have a date are those of the calendar's years. -/
theorem inRange_iff (seconds : Int) : InRange seconds ↔
    -9999 ≤ (Date.ofDays (seconds / secondsPerDay)).year ∧
      (Date.ofDays (seconds / secondsPerDay)).year ≤ 9999 := by
  have hfirst : newYear (-9999) * secondsPerDay = firstSecond := by decide
  have hlast : newYear (9999 + 1) * secondsPerDay = lastSecond + 1 := by decide
  rw [← Int.lt_add_one_iff (b := 9999), ← Int.not_le, le_year_iff, le_year_iff]
  unfold InRange secondsPerDay at *
  omega

/-- What clocks have counted at an instant that are `offset` seconds ahead, in picoseconds. -/
def localTotal (t : Instant) (offset : Int) : Int := t.total + offset * picosPerSecond

/-- The day that such clocks show, after the first of January 1970. -/
def localDay (t : Instant) (offset : Int) : Int :=
  localTotal t offset / picosPerSecond / secondsPerDay

/-- The day that they show lies in the years of the calendar. -/
def Dated (t : Instant) (offset : Int) : Prop :=
  -9999 ≤ (Date.ofDays (localDay t offset)).year ∧ (Date.ofDays (localDay t offset)).year ≤ 9999

instance (t : Instant) (offset : Int) : Decidable (Dated t offset) :=
  inferInstanceAs (Decidable (_ ∧ _))

/-- The date and the time that they show, to the nanosecond below. -/
def DateTime.onClocks? (t : Instant) (offset : Int) : Option DateTime :=
  ofInstant? (.ofTotal (localTotal t offset))

/-- The instant at which such clocks show the given time on a day. -/
def onDay (day offset : Int) (hour minute : Nat) : Instant :=
  .ofTotal ((day * secondsPerDay + hour * 3600 + minute * 60 - offset) * picosPerSecond)

variable {t : Instant} {offset : Int}

theorem nanos_ediv (t : Instant) : t.nanos / 1000000000 = t.total / picosPerSecond := by
  unfold Instant.nanos picosPerSecond
  omega

theorem localTotal_ediv (t : Instant) (offset : Int) :
    localTotal t offset / picosPerSecond = t.nanos / 1000000000 + offset := by
  rw [nanos_ediv]
  exact Int.add_mul_ediv_right _ _ (by decide)

theorem inRange_add_iff : InRange (t.nanos / 1000000000 + offset) ↔ Dated t offset := by
  rw [inRange_iff, ← localTotal_ediv]
  exact Iff.rfl

theorem Dated.inRange (h : Dated t offset) : InRange (localTotal t offset / picosPerSecond) :=
  (inRange_iff _).mpr h

theorem inRange_iff_dated : InRange (t.nanos / 1000000000) ↔ Dated t 0 := by
  rw [← inRange_add_iff, Int.add_zero]

/-- A time of day is looked for on the local day, and what is wrong with it is found in this order. -/
theorem atClock_eq (now : Instant) (offset : Int) (hour minute : Nat) :
    atClock now offset hour minute =
      if 23 < hour then .error .hourOutOfRange
      else if 59 < minute then .error .minuteOutOfRange
      else if ¬ Dated now 0 then .error .nowOutOfRange
      else if ¬ Dated now offset then .error .localDateOutOfRange
      else .ok (onDay (localDay now offset) offset hour minute) := by
  unfold localDay atClock
  rw [localTotal_ediv]
  simp only [inRange_add_iff, inRange_iff_dated]
  rfl

end Timekeeping.Civil
