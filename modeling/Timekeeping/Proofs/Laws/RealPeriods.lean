import Timekeeping.Proofs.Time.Grids
import Timekeeping.Proofs.Time.Totals

/-!
The next multiple of a period in seconds. The period's picoseconds, as the format rounds them, are
doubled into a grid; the next instant is the first whole picosecond from the next point of this grid
on. The grid is that of the period itself wherever 64 doublings make it whole, so nothing drifts far
from the epoch, and periods of whole picoseconds are treated like spans.
-/
namespace Timekeeping.Instant

/-- The search for the next multiple of a period in seconds. -/
structure FollowsGrid (t : Instant) (period : Binary64) : Prop where
  found {r : Instant} : t.nextAlignedReal? period = some r →
    ∃ s k m, period.LastsPicos s ∧ Doublings s k ∧
      IsLeast (t.gridAfter (stepAfter s k / 2 ^ k)) m ∧ r = ofTotal ⌈m⌉ ∧
      (Ticks.Representable ⌈m⌉ → r.Stores ⌈m⌉ ∧ t < r)
  no_drift {s : Rat} {k j : Nat} {n : Int} : period.LastsPicos s → Doublings s k → j ≤ 64 →
    s * 2 ^ j = n → (stepAfter s k : Rat) / 2 ^ k = s
  whole {n : Int} : period.LastsPicos n → Ticks.Representable n →
    t.nextAlignedReal? period = t.nextAligned? (.ofTotal n)
  refused : t.nextAlignedReal? period = none ↔
    ¬ period.Positive ∨ period.scale (10 ^ 12) = .infinite false ∨
      ∃ s k, period.LastsPicos s ∧ Doublings s k ∧
        (10 ^ 37 ≤ s * 2 ^ k ∨ stepAfter s k = 0 ∨ ¬ FitsWord (t.total * 2 ^ k) ∨
          ¬ FitsWord (t.tickAfter (stepAfter s k) k))

variable {t : Instant} {period : Binary64} {s : Rat} {k : Nat}

/-- What is found is the first whole picosecond from the next point of the grid on. -/
theorem exists_grid_point {r : Instant} (h : t.nextAlignedReal? period = some r) :
    ∃ s k m, period.LastsPicos s ∧ Doublings s k ∧
      IsLeast (t.gridAfter (stepAfter s k / 2 ^ k)) m ∧ r = ofTotal ⌈m⌉ := by
  have hpositive : period.Positive := by
    by_contra hnot
    rw [nextAlignedReal?_of_not_positive t hnot] at h
    cases h
  rcases hpositive.lasts_or_infinite with ⟨s, hs⟩ | hinfinite
  · obtain ⟨k, hk⟩ := exists_doublings s
    rw [nextAlignedReal?_eq t hs hk] at h
    split at h
    · cases h
    · next hnot =>
      have hstep : 0 < stepAfter s k := Int.not_le.mp fun hle => hnot (.inl (.inr hle))
      exact ⟨s, k, _, hs, hk, isLeast_tickAfter t hstep k, (Option.some.inj h).symm⟩
  · rw [nextAlignedReal?_of_infinite t hinfinite] at h
    cases h

/-- The picosecond that is stored comes after the instant, as the point of the grid does. -/
theorem stores_ceil {m : Rat} (hm : (t.total : Rat) < m) (hstored : Ticks.Representable ⌈m⌉) :
    (ofTotal ⌈m⌉).Stores ⌈m⌉ ∧ t < ofTotal ⌈m⌉ := by
  have hstores : (ofTotal ⌈m⌉).Stores ⌈m⌉ := Ticks.stores_ofTotal hstored
  refine ⟨hstores, Ticks.lt_of_total_lt hstores.normal ?_⟩
  rw [hstores.total_eq]
  exact_mod_cast hm.trans_le (Int.le_ceil m)

theorem refused_iff_of_ofWord {w : UInt64} (hs : (Binary64.ofWord w).LastsPicos s)
    (hk : Doublings s k) :
    t.Refused s k ↔ 10 ^ 37 ≤ s * 2 ^ k ∨ stepAfter s k = 0 ∨ ¬ FitsWord (t.total * 2 ^ k) ∨
      ¬ FitsWord (t.tickAfter (stepAfter s k) k) := by
  have hnonneg := stepAfter_nonneg hs.nonneg k
  have hstep : stepAfter s k ≤ 0 ↔ stepAfter s k = 0 := by omega
  unfold Refused
  rw [hk.tickBound_le_iff hs, hstep, or_assoc]

/-- A period of whole picoseconds is its own grid. -/
theorem nextAlignedReal?_of_whole {n : Int} (hs : period.LastsPicos n)
    (hn : Ticks.Representable n) : t.nextAlignedReal? period = t.nextAligned? (.ofTotal n) := by
  have hperiod : (Duration.ofTotal n).total = n := Ticks.total_ofTotal hn
  by_cases hpositive : (Duration.ofTotal n).IsPositive
  · have hstep : 0 < n := (Duration.isPositive_ofTotal n).mp hpositive
    have htick : t.tickAfter (stepAfter n 0) 0 = t.multipleAfter (.ofTotal n) := by
      rw [stepAfter_intCast]
      unfold tickAfter multipleAfter
      rw [hperiod, pow_zero, Int.mul_one]
    have hnot : ¬ t.Refused n 0 := by
      rintro ((hlong | hshort) | hticks | hnext)
      · have hbound : (n : Rat) < 9223372036854775808 * 1000000000000 := by exact_mod_cast hn.2
        unfold tickBound at hlong
        norm_num at hlong
        linarith
      · rw [stepAfter_intCast] at hshort
        omega
      · rw [pow_zero, Int.mul_one] at hticks
        exact hticks t.fitsWord_total
      · rw [htick] at hnext
        exact hnext (fitsWord_multipleAfter hpositive)
    rw [nextAlignedReal?_eq t hs (doublings_intCast n), if_neg hnot, htick, pow_zero, div_one,
      Int.ceil_intCast, nextAligned?_eq hpositive]
  · have hshort : stepAfter n 0 ≤ 0 := by
      rw [stepAfter_intCast]
      exact Int.not_lt.mp fun hstep => hpositive ((Duration.isPositive_ofTotal n).mpr hstep)
    unfold nextAligned?
    rw [if_neg hpositive, nextAlignedReal?_eq_none_iff t hs (doublings_intCast n)]
    exact .inl (.inr hshort)

theorem follows_grid (t : Instant) (w : UInt64) : t.FollowsGrid (.ofWord w) where
  found h := by
    obtain ⟨s, k, m, hs, hk, hm, rfl⟩ := exists_grid_point h
    exact ⟨s, k, m, hs, hk, hm, rfl, stores_ceil hm.1.1⟩
  no_drift _ hk hj hn := hk.stepAfter_div hj hn
  whole hs hn := nextAlignedReal?_of_whole hs hn
  refused := by
    by_cases hpositive : (Binary64.ofWord w).Positive
    · rcases hpositive.lasts_or_infinite with ⟨s, hs⟩ | hinfinite
      · obtain ⟨k, hk⟩ := exists_doublings s
        rw [nextAlignedReal?_eq_none_iff t hs hk, refused_iff_of_ofWord hs hk]
        constructor
        · exact fun h => .inr (.inr ⟨s, k, hs, hk, h⟩)
        · rintro (hnot | hinfinite | ⟨s', k', hs', hk', h⟩)
          · exact absurd hpositive hnot
          · rw [hs.2] at hinfinite
            cases hinfinite
          · obtain rfl := hs.unique hs'
            obtain rfl := hk.unique hk'
            exact h
      · exact iff_of_true (nextAlignedReal?_of_infinite t hinfinite) (.inr (.inl hinfinite))
    · exact iff_of_true (nextAlignedReal?_of_not_positive t hpositive) (.inl hpositive)

/-- A third of a second is no whole number of picoseconds, and its multiples are rounded up. -/
example : (ofSeconds 10).nextAlignedReal? (.ofWord 0x3fd5555555555555) =
    some ⟨⟨10, 333333333334⟩⟩ := by
  decide +kernel

end Timekeeping.Instant
