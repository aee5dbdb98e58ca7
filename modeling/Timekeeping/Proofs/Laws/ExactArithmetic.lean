import Timekeeping.Proofs.Time.Totals

/-!
Arithmetic of time values is exact within their range. The values whose fraction is less than a
second are, in order, the totals from `-2 ^ 63` seconds up to `2 ^ 63` seconds; sums, differences
and multiples are those of totals, and so the laws of whole numbers hold for instants and spans.
-/
namespace Timekeeping

/-- Time values compute as the whole numbers that are their totals do. -/
structure ExactArithmetic : Prop where
  range {n : Int} : Ticks.Representable n ↔ -2 ^ 63 * 10 ^ 12 ≤ n ∧ n < 2 ^ 63 * 10 ^ 12
  spans : ∃ e : {d : Duration // d.Normal} ≃o {n : Int // Ticks.Representable n},
    (∀ d, (e d).1 = d.1.total) ∧ ∀ n, (e.symm n).1 = .ofTotal n.1
  instants : ∃ e : {t : Instant // t.Normal} ≃o {n : Int // Ticks.Representable n},
    (∀ t, (e t).1 = t.1.total) ∧ ∀ n, (e.symm n).1 = .ofTotal n.1
  span_add {a b : Duration} : Ticks.Representable (a.total + b.total) →
    (a + b).Stores (a.total + b.total)
  span_sub {a b : Duration} : Ticks.Representable (a.total - b.total) →
    (a - b).Stores (a.total - b.total)
  span_neg {a : Duration} : Ticks.Representable (-a.total) → (-a).Stores (-a.total)
  span_times {a : Duration} {count : Int} : Ticks.Representable (a.total * count) →
    (a.times count).Stores (a.total * count)
  instant_add {t : Instant} {d : Duration} : Ticks.Representable (t.total + d.total) →
    (t + d).Stores (t.total + d.total)
  instant_sub {t : Instant} {d : Duration} : Ticks.Representable (t.total - d.total) →
    (t - d).Stores (t.total - d.total)
  instant_since {s t : Instant} : Ticks.Representable (t.total - s.total) →
    (t - s).Stores (t.total - s.total)
  add_sub_cancel {t : Instant} {d : Duration} : t.Normal →
    Ticks.Representable (t.total + d.total) → t + d - d = t
  add_since_cancel {t : Instant} {d : Duration} : d.Normal →
    Ticks.Representable (t.total + d.total) → t + d - t = d
  add_since {s t : Instant} : t.Normal → Ticks.Representable (t.total - s.total) →
    s + (t - s) = t
  add_lt_add_iff {s t : Instant} {d : Duration} : s.Normal → t.Normal →
    Ticks.Representable (s.total + d.total) → Ticks.Representable (t.total + d.total) →
      (s < t ↔ s + d < t + d)
  wholeUnits_eq_iff {a unit : Duration} {q : Int} : .zero < unit →
    (a.wholeUnits unit = q ↔ q * unit.total ≤ a.total ∧ a.total < (q + 1) * unit.total)

theorem arithmetic_exact : ExactArithmetic where
  range := by
    unfold Ticks.Representable picosPerSecond
    rw [Int64.toInt_minValue, Int64.toInt_maxValue]
    norm_num
  spans := ⟨Duration.totals, fun _ => rfl, fun _ => rfl⟩
  instants := ⟨Instant.totals, fun _ => rfl, fun _ => rfl⟩
  span_add h := Ticks.stores_ofTotal h
  span_sub h := Ticks.stores_ofTotal h
  span_neg h := Ticks.stores_ofTotal h
  span_times h := Duration.stores_times h
  instant_add h := Ticks.stores_ofTotal h
  instant_sub h := Ticks.stores_ofTotal h
  instant_since h := Ticks.stores_ofTotal h
  add_sub_cancel ht h := Instant.add_sub_cancel ht h
  add_since_cancel hd h := Instant.add_since_cancel hd h
  add_since ht h := Instant.add_since ht h
  add_lt_add_iff hs ht hs' ht' := Instant.add_lt_add_iff hs ht hs' ht'
  wholeUnits_eq_iff h := Duration.wholeUnits_eq_iff (Duration.zero_lt_iff.mp h) _

end Timekeeping
