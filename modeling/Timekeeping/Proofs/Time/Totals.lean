import Timekeeping.Proofs.Time.Repeats
import Mathlib.Order.Hom.Basic

/-!
Stored values and their totals. The totals that can be stored stand one for one, and
in order, for the values whose fraction is less than a second. So whatever is computed
on totals is exact as long as the outcome can be stored.
-/
namespace Timekeeping

namespace Ticks

/-- The value stands for the total, and is the only one of its kind that does. -/
structure Stores (t : Ticks) (n : Int) : Prop where
  normal : t.Normal
  total_eq : t.total = n

theorem Normal.representable {t : Ticks} (h : t.Normal) : Representable t.total := by
  have hlow := Int64.minValue_le_toInt t.secs
  have hhigh := Int64.toInt_le t.secs
  unfold Normal at h
  unfold Representable total picosPerSecond at *
  omega

/-- A value with a fraction of less than a second is what its total is split into. -/
theorem ofTotal_total {t : Ticks} (h : t.Normal) : ofTotal t.total = t :=
  (eq_iff_total_eq (ofTotal_normal _) h).mpr (total_ofTotal h.representable)

/-- A value with a fraction of less than a second comes after all that have a smaller total. -/
theorem lt_of_total_lt {a b : Ticks} (hb : b.Normal) (h : a.total < b.total) : a < b := by
  by_contra hnot
  have hle := total_le_total hb (not_lt.mp hnot)
  omega

theorem stores_ofTotal {n : Int} (h : Representable n) : (ofTotal n).Stores n :=
  ⟨ofTotal_normal n, total_ofTotal h⟩

/-- The fields of a split total: whole seconds that stop at the ends of their range, and what is
left. -/
theorem exists_fields (n : Int) :
    ∃ q r : Int, n = q * picosPerSecond + r ∧ n % picosPerSecond = r ∧
      0 ≤ r ∧ r < picosPerSecond ∧
      (ofTotal n).secs.toInt = max (-2 ^ 63) (min (2 ^ 63 - 1) q) ∧
      (ofTotal n).picos.toNat = r := by
  refine ⟨n / picosPerSecond, n % picosPerSecond, (Int.ediv_mul_add_emod n _).symm, rfl,
    Int.emod_nonneg n (by decide), Int.emod_lt_of_pos n (by decide), ?_, picos_ofTotal n⟩
  rw [secs_ofTotal, Int64.toInt_minValue, Int64.toInt_maxValue]

/-- A total that is not negative can only be cut at the end of the range. -/
theorem exists_fields_of_nonneg {n : Int} (h : 0 ≤ n) :
    ∃ q r : Int, n = q * picosPerSecond + r ∧ 0 ≤ q ∧ 0 ≤ r ∧ r < picosPerSecond ∧
      (ofTotal n).secs.toInt = min (2 ^ 63 - 1) q ∧ (ofTotal n).picos.toNat = r := by
  obtain ⟨q, r, hn, -, hr, hr', hsecs, hpicos⟩ := exists_fields n
  have hq : 0 ≤ q := by
    unfold picosPerSecond at *
    omega
  exact ⟨q, r, hn, hq, hr, hr', by omega, hpicos⟩

/-- Sums of totals that are not negative stop at the end of the range, whichever of them are cut
before. -/
theorem ofTotal_total_add_total {m n : Int} (hm : 0 ≤ m) (hn : 0 ≤ n) :
    ofTotal ((ofTotal m).total + (ofTotal n).total) = ofTotal (m + n) := by
  obtain ⟨q, r, hm', hq, hr, hr', hsecs, hpicos⟩ := exists_fields_of_nonneg hm
  obtain ⟨q', r', hn', hq', hs, hs', hsecs', hpicos'⟩ := exists_fields_of_nonneg hn
  have hcut : 0 ≤ (ofTotal m).total + (ofTotal n).total := by
    unfold total picosPerSecond
    omega
  obtain ⟨a, b, hsum, -, hb, hb', hsumSecs, hsumPicos⟩ := exists_fields_of_nonneg (add_nonneg hm hn)
  obtain ⟨c, d, hparts, -, hd, hd', hcutSecs, hcutPicos⟩ := exists_fields_of_nonneg hcut
  clear hm hn hcut
  unfold total at *
  unfold picosPerSecond at *
  exact ext_toInt (by omega) (by omega)

end Ticks

namespace Duration

variable {a b : Duration}

theorem ofTotal_total (h : a.Normal) : ofTotal a.total = a :=
  congrArg mk (Ticks.ofTotal_total h)

theorem ofTotal_add_ofTotal {m n : Int} (hm : 0 ≤ m) (hn : 0 ≤ n) :
    ofTotal m + ofTotal n = ofTotal (m + n) :=
  congrArg mk (Ticks.ofTotal_total_add_total hm hn)

/-- Spans whose fraction is less than a second, by their totals. -/
def totals : {d : Duration // d.Normal} ≃o {n : Int // Ticks.Representable n} where
  toFun d := ⟨d.1.total, d.2.representable⟩
  invFun n := ⟨ofTotal n.1, ofTotal_normal n.1⟩
  left_inv d := Subtype.ext (ofTotal_total d.2)
  right_inv n := Subtype.ext (Ticks.total_ofTotal n.2)
  map_rel_iff' {d e} := (Ticks.le_iff_total_le d.2 e.2).symm

theorem stores_times {count : Int} (h : Ticks.Representable (a.total * count)) :
    (a.times count).Stores (a.total * count) :=
  ⟨ofTotal_normal _, total_times h⟩

theorem zero_lt_iff : zero < a ↔ a.IsPositive := by
  rw [isPositive_iff]
  change zero.toTicks < a.toTicks ↔ _
  rw [Ticks.lt_iff]
  change (0 : Int64).toInt < _ ∨ (0 : Int64).toInt = _ ∧ (0 : UInt64).toNat < _ ↔ _
  simp only [Int64.toInt_zero, UInt64.toNat_zero]
  omega

/-- The number of whole units is the only one whose multiple of the unit the span reaches while it
does not reach the next. -/
theorem wholeUnits_eq_iff {unit : Duration} (hpositive : unit.IsPositive) (q : Int) :
    a.wholeUnits unit = q ↔ q * unit.total ≤ a.total ∧ a.total < (q + 1) * unit.total := by
  have hunit := hpositive.total_pos
  unfold wholeUnits
  rw [if_pos hpositive, ← Int.le_ediv_iff_mul_le hunit, ← Int.ediv_lt_iff_lt_mul hunit]
  omega

end Duration

namespace Instant

variable {s t : Instant} {d : Duration}

theorem ofTotal_total (h : t.Normal) : ofTotal t.total = t :=
  congrArg mk (Ticks.ofTotal_total h)

/-- Instants whose fraction is less than a second, by their totals. -/
def totals : {t : Instant // t.Normal} ≃o {n : Int // Ticks.Representable n} where
  toFun t := ⟨t.1.total, t.2.representable⟩
  invFun n := ⟨ofTotal n.1, ofTotal_normal n.1⟩
  left_inv t := Subtype.ext (ofTotal_total t.2)
  right_inv n := Subtype.ext (Ticks.total_ofTotal n.2)
  map_rel_iff' {s t} := (Ticks.le_iff_total_le s.2 t.2).symm

theorem total_since (h : Ticks.Representable (t.total - s.total)) :
    (t - s).total = t.total - s.total :=
  Ticks.total_ofTotal h

/-- Going on for a while and back again leads to the same instant. -/
theorem add_sub_cancel (ht : t.Normal) (h : Ticks.Representable (t.total + d.total)) :
    t + d - d = t := by
  have hback : (t + d).total - d.total = t.total := by
    rw [total_add h, Int.add_sub_cancel]
  change ofTotal ((t + d).total - d.total) = t
  rw [hback, ofTotal_total ht]

/-- The span to an instant that lies later by `d` is `d`. -/
theorem add_since_cancel (hd : d.Normal) (h : Ticks.Representable (t.total + d.total)) :
    t + d - t = d := by
  have hspan : (t + d).total - t.total = d.total := by
    rw [total_add h]
    omega
  change Duration.ofTotal ((t + d).total - t.total) = d
  rw [hspan, Duration.ofTotal_total hd]

/-- The span between two instants leads from one to the other. -/
theorem add_since (ht : t.Normal) (h : Ticks.Representable (t.total - s.total)) :
    s + (t - s) = t := by
  have hsum : s.total + (t - s).total = t.total := by
    rw [total_since h]
    omega
  change ofTotal (s.total + (t - s).total) = t
  rw [hsum, ofTotal_total ht]

theorem add_lt_add_iff (hs : s.Normal) (ht : t.Normal)
    (hs' : Ticks.Representable (s.total + d.total))
    (ht' : Ticks.Representable (t.total + d.total)) : s < t ↔ s + d < t + d := by
  have hbefore : s < t ↔ s.total < t.total := Ticks.lt_iff_total_lt hs ht
  have hafter : s + d < t + d ↔ s.total + d.total < t.total + d.total :=
    Ticks.ofTotal_lt_iff hs' ht'
  rw [hbefore, hafter]
  omega

end Instant
end Timekeeping
