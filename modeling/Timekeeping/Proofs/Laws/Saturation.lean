import Timekeeping.Proofs.Time.Totals

/-!
What becomes of totals that cannot be stored. Their seconds stop at the ends of the range but
their fractions are kept, so two of them that share the last second, or the first, are ordered by
their fractions alone. Otherwise totals keep their order, and a stored value never falls back
behind an earlier one by a second or more.
-/
namespace Timekeeping

namespace Ticks

/-- Two totals of which the first is not greater stay in order when they are cut to what can be
stored: their fractions are in order, or they do not both end up in the last second or in the
first. -/
def StayInOrder (m n : Int) : Prop :=
  m % picosPerSecond ≤ n % picosPerSecond ∨
    m < Int64.maxValue.toInt * picosPerSecond ∧ (Int64.minValue.toInt + 1) * picosPerSecond ≤ n

instance (m n : Int) : Decidable (StayInOrder m n) := inferInstanceAs (Decidable (_ ∨ _))

/-- No value with a fraction of less than a second is closer to the total. -/
def Nearest (t : Ticks) (n : Int) : Prop :=
  ∀ u : Ticks, u.Normal → (t.total - n).natAbs ≤ (u.total - n).natAbs

/-- A total above the range has the fraction of the last value, and one below it that of the
first. -/
def EndsEvenly (n : Int) : Prop :=
  ((Int64.maxValue.toInt + 1) * picosPerSecond ≤ n → n % picosPerSecond = picosPerSecond - 1) ∧
    (n < Int64.minValue.toInt * picosPerSecond → n % picosPerSecond = 0)

variable {m n : Int} {t : Ticks}

theorem ofTotal_le_ofTotal_iff (h : m ≤ n) : ofTotal m ≤ ofTotal n ↔ StayInOrder m n := by
  obtain ⟨q, r, hm, hmod, hr, hr', hsecs, hpicos⟩ := exists_fields m
  obtain ⟨q', r', hn, hmod', hs, hs', hsecs', hpicos'⟩ := exists_fields n
  rw [le_iff]
  unfold StayInOrder
  rw [Int64.toInt_minValue, Int64.toInt_maxValue]
  unfold picosPerSecond at *
  omega

theorem stayInOrder_of_representable (h : m ≤ n) (hm : Representable m) (hn : Representable n) :
    StayInOrder m n :=
  (ofTotal_le_ofTotal_iff h).mp ((ofTotal_le_iff hm hn).mpr h)

theorem total_ofTotal_lt_add (h : m ≤ n) :
    (ofTotal m).total < (ofTotal n).total + picosPerSecond := by
  obtain ⟨q, r, hm, -, hr, hr', hsecs, hpicos⟩ := exists_fields m
  obtain ⟨q', r', hn, -, hs, hs', hsecs', hpicos'⟩ := exists_fields n
  unfold total
  unfold picosPerSecond at *
  omega

theorem nearest_ofTotal_iff : (ofTotal n).Nearest n ↔ EndsEvenly n := by
  obtain ⟨q, r, hn, hmod, hr, hr', hsecs, hpicos⟩ := exists_fields n
  have htotal : (ofTotal n).total =
      (ofTotal n).secs.toInt * picosPerSecond + (ofTotal n).picos.toNat := rfl
  unfold EndsEvenly
  constructor
  · intro h
    -- The nearest values to what lies outside of the range are its two ends.
    have hfirst := h (ofTotal (Int64.minValue.toInt * picosPerSecond)) (ofTotal_normal _)
    have hlast := h (ofTotal ((Int64.maxValue.toInt + 1) * picosPerSecond - 1)) (ofTotal_normal _)
    have hfirstTotal : (ofTotal (Int64.minValue.toInt * picosPerSecond)).total =
        Int64.minValue.toInt * picosPerSecond := total_ofTotal (by decide)
    have hlastTotal : (ofTotal ((Int64.maxValue.toInt + 1) * picosPerSecond - 1)).total =
        (Int64.maxValue.toInt + 1) * picosPerSecond - 1 := total_ofTotal (by decide)
    rw [hfirstTotal] at hfirst
    rw [hlastTotal] at hlast
    rw [Int64.toInt_minValue, Int64.toInt_maxValue] at *
    unfold picosPerSecond at *
    omega
  · rintro ⟨hhigh, hlow⟩ u hu
    have hrange := hu.representable
    unfold Representable at hrange
    rw [Int64.toInt_minValue, Int64.toInt_maxValue] at *
    unfold picosPerSecond at *
    omega

/-- A value is not greater than what follows it, unless it lies in the last second and the fraction
falls. -/
theorem le_ofTotal_iff (h : t.total ≤ n) :
    t ≤ ofTotal n ↔ t.secs < Int64.maxValue ∨ t.picos ≤ (ofTotal n).picos := by
  obtain ⟨q, r, hn, -, hr, hr', hsecs, hpicos⟩ := exists_fields n
  have hlow := Int64.minValue_le_toInt t.secs
  have hhigh := Int64.toInt_le t.secs
  rw [le_iff, Int64.lt_iff_toInt_lt, UInt64.le_iff_toNat_le]
  rw [Int64.toInt_minValue, Int64.toInt_maxValue] at *
  unfold total picosPerSecond at *
  omega

theorem ofTotal_le_iff_of_normal (ht : t.Normal) (h : n ≤ t.total) :
    ofTotal n ≤ t ↔ Int64.minValue < t.secs ∨ (ofTotal n).picos ≤ t.picos := by
  obtain ⟨q, r, hn, -, hr, hr', hsecs, hpicos⟩ := exists_fields n
  have hlow := Int64.minValue_le_toInt t.secs
  have hhigh := Int64.toInt_le t.secs
  unfold Normal at ht
  rw [le_iff, Int64.lt_iff_toInt_lt, UInt64.le_iff_toNat_le]
  rw [Int64.toInt_minValue, Int64.toInt_maxValue] at *
  unfold total picosPerSecond at *
  omega

/-- How far two totals, of which the first is not greater, keep their order when they are cut to
what can be stored, and how far the second is cut to the nearest value. -/
structure KeepOrder (m n : Int) : Prop where
  spans : Duration.ofTotal m ≤ .ofTotal n ↔ StayInOrder m n
  instants : Instant.ofTotal m ≤ .ofTotal n ↔ StayInOrder m n
  in_range : Representable m → Representable n → StayInOrder m n
  span_nearest : (Duration.ofTotal n).Nearest n ↔ EndsEvenly n
  instant_nearest : (Instant.ofTotal n).Nearest n ↔ EndsEvenly n
  span_falls : (Duration.ofTotal m).total < (Duration.ofTotal n).total + picosPerSecond
  instant_falls : (Instant.ofTotal m).total < (Instant.ofTotal n).total + picosPerSecond

theorem keepOrder (h : m ≤ n) : KeepOrder m n where
  spans := ofTotal_le_ofTotal_iff h
  instants := ofTotal_le_ofTotal_iff h
  in_range hm hn := stayInOrder_of_representable h hm hn
  span_nearest := nearest_ofTotal_iff
  instant_nearest := nearest_ofTotal_iff
  span_falls := total_ofTotal_lt_add h
  instant_falls := total_ofTotal_lt_add h

end Ticks

/-- How far an instant keeps its place before what follows it by a span and after what precedes it,
and how far an earlier one stays before it when both are moved by the span. -/
structure Instant.KeepsPlace (t : Instant) (d : Duration) : Prop where
  le_add : 0 ≤ d.total → (t ≤ t + d ↔ t.secs < Int64.maxValue ∨ t.picos ≤ (t + d).picos)
  sub_le : t.Normal → 0 ≤ d.total →
    (t - d ≤ t ↔ Int64.minValue < t.secs ∨ (t - d).picos ≤ t.picos)
  add_le_add {s : Instant} : s.Normal → s ≤ t →
    (s + d ≤ t + d ↔ Ticks.StayInOrder (s.total + d.total) (t.total + d.total))

theorem Instant.keepsPlace (t : Instant) (d : Duration) : t.KeepsPlace d where
  le_add hd := Ticks.le_ofTotal_iff (by omega)
  sub_le ht hd := Ticks.ofTotal_le_iff_of_normal ht (by omega)
  add_le_add hs hst := by
    have htotals := Ticks.total_le_total hs hst
    exact Ticks.ofTotal_le_ofTotal_iff (by omega)

theorem order_at_ends {m n : Int} (h : m ≤ n) (t : Instant) (d : Duration) :
    Ticks.KeepOrder m n ∧ t.KeepsPlace d :=
  ⟨Ticks.keepOrder h, t.keepsPlace d⟩

/-- Half a second before the end of time. -/
def lastHalfSecond : Instant := ⟨⟨Int64.maxValue, 500000000000⟩⟩

/-- The last total that can be stored and the next one do not stay in order. -/
theorem order_at_ends_lastHalfSecond :
    (9223372036854775807999999999999 : Int) ≤ 9223372036854775808000000000000 ∧
      (Ticks.KeepOrder 9223372036854775807999999999999 9223372036854775808000000000000 ∧
        lastHalfSecond.KeepsPlace (.ofTotal 600000000000)) ∧
      ¬ Ticks.StayInOrder 9223372036854775807999999999999 9223372036854775808000000000000 :=
  ⟨by decide, order_at_ends (by decide) _ _, by decide⟩

/-- From there six tenths of a second lead back, and the total that follows the last one is stored
as a span that is shorter by almost a second. -/
theorem lastHalfSecond_falls_back :
    lastHalfSecond.Normal ∧ lastHalfSecond + Duration.ofTotal 600000000000 < lastHalfSecond ∧
      Duration.ofTotal 9223372036854775808000000000000 <
        Duration.ofTotal 9223372036854775807999999999999 := by
  decide +kernel

end Timekeeping
