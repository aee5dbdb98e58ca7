import Timekeeping.Time.Instant
import Mathlib.Order.Basic

/-!
The order of time values. Stored values are ordered by their fields, which is a
total order whatever the fields hold. On values whose fraction is less than a
second it is the order of totals.
-/
namespace Timekeeping

namespace Ticks

theorem le_iff (a b : Ticks) :
    a ≤ b ↔ a.secs.toInt < b.secs.toInt ∨
      a.secs.toInt = b.secs.toInt ∧ a.picos.toNat ≤ b.picos.toNat := by
  change a.secs < b.secs ∨ a.secs = b.secs ∧ a.picos ≤ b.picos ↔ _
  rw [Int64.lt_iff_toInt_lt, ← Int64.toInt_inj, UInt64.le_iff_toNat_le]

theorem lt_iff (a b : Ticks) :
    a < b ↔ a.secs.toInt < b.secs.toInt ∨
      a.secs.toInt = b.secs.toInt ∧ a.picos.toNat < b.picos.toNat := by
  change a.secs < b.secs ∨ a.secs = b.secs ∧ a.picos < b.picos ↔ _
  rw [Int64.lt_iff_toInt_lt, ← Int64.toInt_inj, UInt64.lt_iff_toNat_lt]

theorem not_lt {a b : Ticks} : ¬ a < b ↔ b ≤ a := by
  rw [lt_iff, le_iff]
  omega

theorem le_of_lt {a b : Ticks} (h : a < b) : a ≤ b := by
  rw [lt_iff] at h
  rw [le_iff]
  omega

theorem ext_toInt {a b : Ticks} (hs : a.secs.toInt = b.secs.toInt)
    (hp : a.picos.toNat = b.picos.toNat) : a = b := by
  obtain ⟨s, p⟩ := a
  obtain ⟨s', p'⟩ := b
  obtain rfl : s = s' := Int64.toInt_inj.mp hs
  obtain rfl : p = p' := UInt64.toNat_inj.mp hp
  rfl

instance : Std.IsLinearOrder Ticks where
  le_refl a := by
    rw [le_iff]
    omega
  le_trans a b c hab hbc := by
    rw [le_iff] at hab hbc ⊢
    omega
  le_antisymm a b hab hba := by
    rw [le_iff] at hab hba
    exact ext_toInt (by omega) (by omega)
  le_total a b := by
    rw [le_iff, le_iff]
    omega

/-- A value whose fraction is less than a second has a smaller total than all that follow it. -/
theorem total_le_total {a b : Ticks} (ha : a.Normal) (h : a ≤ b) : a.total ≤ b.total := by
  rw [le_iff] at h
  unfold Normal at ha
  unfold total picosPerSecond at *
  omega

/-- All values with a smaller total come before one whose fraction is less than a second. -/
theorem le_of_total_le {a b : Ticks} (hb : b.Normal) (h : a.total ≤ b.total) : a ≤ b := by
  rw [le_iff]
  unfold Normal at hb
  unfold total picosPerSecond at *
  omega

/-- Among values whose fractions are less than a second the order is that of totals. -/
theorem le_iff_total_le {a b : Ticks} (ha : a.Normal) (hb : b.Normal) :
    a ≤ b ↔ a.total ≤ b.total :=
  ⟨total_le_total ha, le_of_total_le hb⟩

theorem lt_iff_total_lt {a b : Ticks} (ha : a.Normal) (hb : b.Normal) :
    a < b ↔ a.total < b.total := by
  rw [← Int.not_le, ← le_iff_total_le hb ha, ← not_lt, not_not]

/-- A total is stored in one way only, if its fraction is to be less than a second. -/
theorem eq_iff_total_eq {a b : Ticks} (ha : a.Normal) (hb : b.Normal) :
    a = b ↔ a.total = b.total := by
  constructor
  · rintro rfl
    rfl
  · intro htotal
    unfold Normal total picosPerSecond at *
    exact ext_toInt (by omega) (by omega)

/-- The totals that can be stored. -/
def Representable (n : Int) : Prop :=
  Int64.minValue.toInt * picosPerSecond ≤ n ∧ n < (Int64.maxValue.toInt + 1) * picosPerSecond

instance (n : Int) : Decidable (Representable n) := inferInstanceAs (Decidable (_ ∧ _))

theorem picos_ofTotal (n : Int) : ((ofTotal n).picos.toNat : Int) = n % picosPerSecond := by
  have hnonneg : 0 ≤ n % picosPerSecond := Int.emod_nonneg n (by decide)
  have hlt : n % picosPerSecond < picosPerSecond := Int.emod_lt_of_pos n (by decide)
  unfold ofTotal picosPerSecond at *
  simp only [UInt64.toNat_ofNat']
  omega

theorem ofTotal_normal (n : Int) : (ofTotal n).Normal := by
  unfold Normal
  rw [picos_ofTotal]
  exact Int.emod_lt_of_pos n (by decide)

theorem toInt_clampSeconds (n : Int) :
    (clampSeconds n).toInt = max Int64.minValue.toInt (min Int64.maxValue.toInt n) := by
  unfold clampSeconds
  rw [Int64.toInt_minValue, Int64.toInt_maxValue]
  split
  · rw [Int64.toInt_minValue]
    omega
  · split
    · rw [Int64.toInt_maxValue]
      omega
    · rw [Int64.toInt_ofInt_of_le (by omega) (by omega)]
      omega

theorem secs_ofTotal (n : Int) :
    (ofTotal n).secs.toInt =
      max Int64.minValue.toInt (min Int64.maxValue.toInt (n / picosPerSecond)) :=
  toInt_clampSeconds _

/-- Splitting a total that can be stored loses nothing. -/
theorem total_ofTotal {n : Int} (h : Representable n) : (ofTotal n).total = n := by
  have hsplit := Int.mul_ediv_add_emod n picosPerSecond
  unfold total
  rw [secs_ofTotal, picos_ofTotal]
  unfold Representable at h
  rw [Int64.toInt_minValue, Int64.toInt_maxValue] at h ⊢
  unfold picosPerSecond at *
  omega

/-- What is not negative gets no longer when it is cut to what can be stored. -/
theorem total_ofTotal_le {n : Int} (h : 0 ≤ n) : (ofTotal n).total ≤ n := by
  have hsplit := Int.mul_ediv_add_emod n picosPerSecond
  have hsecs := secs_ofTotal n
  have hpicos := picos_ofTotal n
  unfold total
  rw [Int64.toInt_minValue, Int64.toInt_maxValue] at hsecs
  unfold picosPerSecond at *
  omega

theorem ofTotal_le_iff {m n : Int} (hm : Representable m) (hn : Representable n) :
    ofTotal m ≤ ofTotal n ↔ m ≤ n := by
  rw [le_iff_total_le (ofTotal_normal m) (ofTotal_normal n), total_ofTotal hm, total_ofTotal hn]

theorem ofTotal_lt_iff {m n : Int} (hm : Representable m) (hn : Representable n) :
    ofTotal m < ofTotal n ↔ m < n := by
  rw [lt_iff_total_lt (ofTotal_normal m) (ofTotal_normal n), total_ofTotal hm, total_ofTotal hn]

end Ticks

namespace Instant

instance : Std.IsLinearOrder Instant where
  le_refl a := Std.le_refl a.toTicks
  le_trans a b c := Std.IsPreorder.le_trans a.toTicks b.toTicks c.toTicks
  le_antisymm a b hab hba := by
    have h := Std.IsPartialOrder.le_antisymm a.toTicks b.toTicks hab hba
    cases a
    cases b
    cases h
    rfl
  le_total a b := Std.IsLinearPreorder.le_total a.toTicks b.toTicks

end Instant

namespace Duration

instance : Std.IsLinearOrder Duration where
  le_refl a := Std.le_refl a.toTicks
  le_trans a b c := Std.IsPreorder.le_trans a.toTicks b.toTicks c.toTicks
  le_antisymm a b hab hba := by
    have h := Std.IsPartialOrder.le_antisymm a.toTicks b.toTicks hab hba
    cases a
    cases b
    cases h
    rfl
  le_total a b := Std.IsLinearPreorder.le_total a.toTicks b.toTicks

theorem not_lt {a b : Duration} : ¬ a < b ↔ b ≤ a := Ticks.not_lt

theorem le_of_lt {a b : Duration} (h : a < b) : a ≤ b := Ticks.le_of_lt h

theorem isPositive_iff (a : Duration) :
    a.IsPositive ↔ 0 < a.secs.toInt ∨ a.secs.toInt = 0 ∧ 0 < a.picos.toNat := by
  unfold IsPositive
  rw [Int64.lt_iff_toInt_lt, ← Int64.toInt_inj, UInt64.lt_iff_toNat_lt]
  simp

/-- All spans after a positive one are positive. -/
theorem IsPositive.mono {a b : Duration} (ha : a.IsPositive) (h : a ≤ b) : b.IsPositive := by
  rw [isPositive_iff] at ha ⊢
  have h := (Ticks.le_iff a.toTicks b.toTicks).mp h
  omega

/-- A span that was cut to the range of its seconds keeps its sign. -/
theorem isPositive_ofTotal (n : Int) : (ofTotal n).IsPositive ↔ 0 < n := by
  have hsplit := Int.mul_ediv_add_emod n picosPerSecond
  have hnonneg : 0 ≤ n % picosPerSecond := Int.emod_nonneg n (by decide)
  have hlt : n % picosPerSecond < picosPerSecond := Int.emod_lt_of_pos n (by decide)
  have hsecs := Ticks.secs_ofTotal n
  have hpicos := Ticks.picos_ofTotal n
  rw [Int64.toInt_minValue, Int64.toInt_maxValue] at hsecs
  rw [isPositive_iff]
  change 0 < (Ticks.ofTotal n).secs.toInt ∨
    (Ticks.ofTotal n).secs.toInt = 0 ∧ 0 < (Ticks.ofTotal n).picos.toNat ↔ _
  unfold picosPerSecond at *
  omega

end Duration
end Timekeeping
