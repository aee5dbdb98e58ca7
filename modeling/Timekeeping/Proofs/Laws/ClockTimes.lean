import Timekeeping.Proofs.Time.Calendar
import Timekeeping.Proofs.Time.Totals
import Timekeeping.Timing.Basic

/-!
Times of day. A time of day means today: the day that local clocks show now, on which they will show
the hour and the minute and nothing beyond them. So it is for every instant that has a date, before
the epoch too, and for every offset, also where local clocks are a day ahead of or behind the date of
the instant. An hour or a minute that no clock shows is refused.
-/
namespace Timekeeping

namespace Civil

/-- The instant at which clocks show the given time on the day that they show now. -/
structure MeansToday (now : Instant) (offset : Int) (hour minute : Nat) (t : Instant) : Prop where
  normal : t.Normal
  same_day : localDay t offset = localDay now offset
  time_of_day : localTotal t offset % (secondsPerDay * picosPerSecond) =
    (hour * 3600 + minute * 60) * picosPerSecond
  shown : ∃ d, DateTime.onClocks? now offset = some d ∧
    DateTime.onClocks? t offset = some { d with hour, minute, second := 0, nanosecond := 0 }

variable {now t : Instant} {offset : Int} {hour minute : Nat}

theorem representable_of_inRange {n : Int} (h : InRange (n / picosPerSecond)) :
    Ticks.Representable n := by
  unfold InRange firstSecond lastSecond at h
  unfold Ticks.Representable
  rw [Int64.toInt_minValue, Int64.toInt_maxValue]
  unfold picosPerSecond at *
  omega

/-- What clocks show on a day of the calendar. -/
theorem DateTime.onClocks?_eq (h : Dated t offset) :
    let seconds := (localTotal t offset / picosPerSecond % secondsPerDay).toNat
    onClocks? t offset = some ⟨.ofDays (localDay t offset), seconds / 3600, seconds / 60 % 60,
      seconds % 60, (localTotal t offset / 1000 % 1000000000).toNat⟩ := by
  have htotal : (Instant.ofTotal (localTotal t offset)).total = localTotal t offset :=
    Ticks.total_ofTotal (representable_of_inRange h.inRange)
  unfold onClocks? ofInstant?
  rw [nanos_ediv, htotal]
  unfold Instant.nanos
  rw [htotal]
  exact if_pos h.inRange

/-- Both dates lie in the calendar, so they are not so far apart that the instant has no stored form. -/
theorem localTotal_onDay (hnow : Dated now 0) (hlocal : Dated now offset) (hhour : hour ≤ 23)
    (hminute : minute ≤ 59) :
    localTotal (onDay (localDay now offset) offset hour minute) offset =
      (localDay now offset * secondsPerDay + hour * 3600 + minute * 60) * picosPerSecond := by
  have hutc := inRange_iff_dated.mpr hnow
  have hclocks := hlocal.inRange
  have hday : localTotal now offset / picosPerSecond / secondsPerDay = localDay now offset := rfl
  rw [localTotal_ediv] at hclocks hday
  generalize localDay now offset = day at *
  have hstored : Ticks.Representable
      ((day * secondsPerDay + hour * 3600 + minute * 60 - offset) * picosPerSecond) := by
    unfold InRange firstSecond lastSecond at hutc hclocks
    unfold Ticks.Representable
    rw [Int64.toInt_minValue, Int64.toInt_maxValue]
    unfold picosPerSecond secondsPerDay at *
    omega
  have htotal : (onDay day offset hour minute).total =
      (day * secondsPerDay + hour * 3600 + minute * 60 - offset) * picosPerSecond :=
    Ticks.total_ofTotal hstored
  unfold localTotal
  rw [htotal, ← Int.add_mul, Int.sub_add_cancel]

/-- What clocks show at a whole minute of a day. -/
theorem DateTime.onClocks?_of_minute (h : Dated t offset) (hhour : hour ≤ 23) (hminute : minute ≤ 59)
    (htotal : localTotal t offset =
      (localDay t offset * secondsPerDay + hour * 3600 + minute * 60) * picosPerSecond) :
    onClocks? t offset = some ⟨.ofDays (localDay t offset), hour, minute, 0, 0⟩ := by
  have hseconds : (localTotal t offset / picosPerSecond % secondsPerDay).toNat =
      hour * 3600 + minute * 60 := by
    rw [htotal, Int.mul_ediv_cancel _ (by decide)]
    unfold secondsPerDay
    omega
  have hnanos : (localTotal t offset / 1000 % 1000000000).toNat = 0 := by
    rw [htotal]
    unfold picosPerSecond
    omega
  have hhours : (hour * 3600 + minute * 60) / 3600 = hour := by omega
  have hminutes : (hour * 3600 + minute * 60) / 60 % 60 = minute := by omega
  have hrest : (hour * 3600 + minute * 60) % 60 = 0 := by omega
  have hshown := onClocks?_eq h
  dsimp only at hshown
  rw [hseconds, hnanos, hhours, hminutes, hrest] at hshown
  exact hshown

theorem meansToday_onDay (hnow : Dated now 0) (hlocal : Dated now offset) (hhour : hour ≤ 23)
    (hminute : minute ≤ 59) :
    MeansToday now offset hour minute (onDay (localDay now offset) offset hour minute) := by
  have htotal := localTotal_onDay hnow hlocal hhour hminute
  have hday : localDay (onDay (localDay now offset) offset hour minute) offset =
      localDay now offset := by
    change localTotal _ offset / picosPerSecond / secondsPerDay = _
    rw [htotal, Int.mul_ediv_cancel _ (by decide)]
    unfold secondsPerDay
    omega
  have hdated : Dated (onDay (localDay now offset) offset hour minute) offset := by
    unfold Dated
    rw [hday]
    exact hlocal
  refine ⟨Instant.ofTotal_normal _, hday, ?_, _, DateTime.onClocks?_eq hlocal, ?_⟩
  · rw [htotal]
    unfold secondsPerDay picosPerSecond
    omega
  · rw [DateTime.onClocks?_of_minute hdated hhour hminute (by rw [hday]; exact htotal), hday]

end Civil

variable {now : Instant} {offset : Int}

/-- A time of day on the clocks of a host, while the calendar has the dates that it and they show. -/
theorem Timing.clock_means_today (hnow : Civil.Dated now 0) (hlocal : Civil.Dated now offset)
    (hour minute : UInt8) (interval : Option Duration) :
    (hour ≤ 23 ∧ minute ≤ 59 → ∃ t,
      (clockTime hour minute).resolve now offset interval = .ok t ∧
        Civil.MeansToday now offset hour.toNat minute.toNat t) ∧
      (¬ (hour ≤ 23 ∧ minute ≤ 59) → ∃ e,
        (clockTime hour minute).resolve now offset interval =
          .error (.fault (.clock hour minute e))) := by
  unfold resolve
  dsimp only
  rw [Civil.atClock_eq, if_neg (not_not.mpr hnow), if_neg (not_not.mpr hlocal),
    UInt8.le_iff_toNat_le, UInt8.le_iff_toNat_le]
  change (hour.toNat ≤ 23 ∧ minute.toNat ≤ 59 → _) ∧ (¬ (hour.toNat ≤ 23 ∧ minute.toNat ≤ 59) → _)
  constructor
  · rintro ⟨hhour, hminute⟩
    rw [if_neg (Nat.not_lt.mpr hhour), if_neg (Nat.not_lt.mpr hminute)]
    exact ⟨_, rfl, Civil.meansToday_onDay hnow hlocal hhour hminute⟩
  · intro hnone
    split_ifs with hhour hminute
    · exact ⟨.hourOutOfRange, rfl⟩
    · exact ⟨.minuteOutOfRange, rfl⟩
    · exact absurd ⟨Nat.not_lt.mp hhour, Nat.not_lt.mp hminute⟩ hnone

/-- A picosecond into the last day before the epoch, clocks that are an hour behind still show the
day before; their midnight was 23 hours ago. -/
theorem clock_means_today_beforeEpoch :
    Civil.Dated ⟨⟨-86400, 1⟩⟩ 0 ∧ Civil.Dated ⟨⟨-86400, 1⟩⟩ (-3600) ∧
      (∃ t, (Timing.clockTime 0 0).resolve ⟨⟨-86400, 1⟩⟩ (-3600) none = .ok t ∧
        Civil.MeansToday ⟨⟨-86400, 1⟩⟩ (-3600) 0 0 t) ∧
      (Timing.clockTime 0 0).resolve ⟨⟨-86400, 1⟩⟩ (-3600) none =
        .ok (.ofSeconds (-169200)) :=
  ⟨by decide, by decide,
    (Timing.clock_means_today (by decide) (by decide) 0 0 none).1 (by decide), by decide⟩

end Timekeeping
