import Timekeeping.Proofs.Time.Grids
import Timekeeping.Proofs.Time.Totals
import Mathlib.Data.Nat.Cast.Field

/-!
Time values from clocks of different resolutions. Seconds and ticks of any rate are a rational number
of seconds, and the value that is taken for them is this number cut to whole picoseconds. It is cut
once, so the values of two clocks are never the other way round, the same time gives the same value
however it is counted, and clocks whose ticks are whole picoseconds lose nothing.
-/
namespace Timekeeping

theorem Instant.checkTotal_eq_some {n : Int} (hlow : -10 ^ 37 ≤ n) (hhigh : n ≤ 10 ^ 37) :
    checkTotal n = some n := by
  rw [checkTotal_eq, if_pos]
  unfold FitsWord Duration.minTotal Duration.maxTotal
  omega

/-- Seconds, and ticks beyond them at `hz` in a second. There may be more of these than a second
has. -/
structure Parts where
  secs : Int64
  frac : UInt64
  hz : UInt64
  hz_ne_zero : hz ≠ 0

namespace Parts

/-- The exact number of seconds. -/
def seconds (p : Parts) : Rat := p.secs.toInt + p.frac.toNat / p.hz.toNat

def picos (p : Parts) : Int := ⌊p.seconds * 10 ^ 12⌋

/-- A tick takes a whole number of picoseconds. -/
def WholeTicks (p : Parts) : Prop := p.hz.toNat ∣ 10 ^ 12

/-- The number itself while an unsigned word of 128 bits can hold it. -/
def checkCount (n : Nat) : Option Nat := if n < 2 ^ 128 then some n else none

/-- The picoseconds in words of 128 bits, every step checked. -/
def checkedPicos? (p : Parts) : Option Int := do
  let ticks ← checkCount (p.frac.toNat * 10 ^ 12)
  let fraction ← Instant.checkTotal (ticks / p.hz.toNat : Nat)
  let whole ← Instant.checkTotal (p.secs.toInt * 10 ^ 12)
  Instant.checkTotal (whole + fraction)

/-- The value that is taken for a time: all steps fit their words, and it stands for the seconds cut
to whole picoseconds. -/
structure TakenAs (p : Parts) (t : Instant) : Prop where
  taken : Instant.ofParts? p.secs p.frac p.hz = some t
  fits : p.checkedPicos? = some p.picos
  stores : t.Stores p.picos

/-- Two values are ordered as the times are for which they are taken. -/
structure InOrder (p q : Parts) (s t : Instant) : Prop where
  le : p.seconds ≤ q.seconds → s ≤ t
  eq : p.seconds = q.seconds → s = t
  lt_iff : p.WholeTicks → q.WholeTicks → (s < t ↔ p.seconds < q.seconds)
  eq_iff : p.WholeTicks → q.WholeTicks → (s = t ↔ p.seconds = q.seconds)

variable {p q : Parts}

theorem seconds_mul_picos (p : Parts) :
    p.seconds * 10 ^ 12 =
      (p.secs.toInt * 10 ^ 12 : Int) + (p.frac.toNat * 10 ^ 12 : Nat) / (p.hz.toNat : Rat) := by
  unfold seconds
  push_cast
  ring

/-- Only the ticks are cut, and toward the past, whatever the sign of the seconds. -/
theorem picos_eq (p : Parts) :
    p.picos = p.secs.toInt * 10 ^ 12 + (p.frac.toNat * 10 ^ 12 / p.hz.toNat : Nat) := by
  unfold picos
  rw [seconds_mul_picos, Int.floor_intCast_add, Rat.floor_natCast_div_natCast, Int.natCast_ediv]

theorem cast_picos (h : p.WholeTicks) : (p.picos : Rat) = p.seconds * 10 ^ 12 := by
  have hdvd : p.hz.toNat ∣ p.frac.toNat * 10 ^ 12 := Dvd.dvd.mul_left h _
  rw [picos_eq, seconds_mul_picos, Int.cast_add, Int.cast_natCast, Nat.cast_div_charZero hdvd]

theorem picos_le_picos (h : p.seconds ≤ q.seconds) : p.picos ≤ q.picos := by
  apply Int.floor_mono
  gcongr

theorem picos_lt_iff (hp : p.WholeTicks) (hq : q.WholeTicks) :
    p.picos < q.picos ↔ p.seconds < q.seconds := by
  have hscale : (0 : Rat) < 10 ^ 12 := by norm_num
  rw [← Int.cast_lt (R := Rat), cast_picos hp, cast_picos hq, mul_lt_mul_iff_left₀ hscale]

theorem picos_eq_iff (hp : p.WholeTicks) (hq : q.WholeTicks) :
    p.picos = q.picos ↔ p.seconds = q.seconds := by
  have hscale : (10 ^ 12 : Rat) ≠ 0 := by norm_num
  rw [← Int.cast_inj (α := Rat), cast_picos hp, cast_picos hq, mul_left_inj' hscale]

/-- The words are wide enough for all seconds and ticks, at any rate. -/
theorem checkedPicos?_eq (p : Parts) : p.checkedPicos? = some p.picos := by
  have hlow := Int64.minValue_le_toInt p.secs
  have hhigh := Int64.toInt_le p.secs
  have hfrac := p.frac.toNat_lt
  have hquotient := Nat.div_le_self (p.frac.toNat * 10 ^ 12) p.hz.toNat
  rw [Int64.toInt_minValue] at hlow
  rw [Int64.toInt_maxValue] at hhigh
  have hticks : checkCount (p.frac.toNat * 10 ^ 12) = some (p.frac.toNat * 10 ^ 12) := by
    unfold checkCount
    rw [if_pos (by omega)]
  rw [picos_eq]
  unfold checkedPicos?
  rw [hticks, Option.bind_eq_bind, Option.bind_some]
  generalize p.frac.toNat * 10 ^ 12 / p.hz.toNat = fraction at hquotient
  rw [Instant.checkTotal_eq_some (by omega) (by omega), Option.bind_eq_bind, Option.bind_some,
    Instant.checkTotal_eq_some (by omega) (by omega), Option.bind_some,
    Instant.checkTotal_eq_some (by omega) (by omega)]

theorem ofParts?_eq (p : Parts) :
    Instant.ofParts? p.secs p.frac p.hz = some (.ofTotal p.picos) := by
  unfold Instant.ofParts?
  rw [if_neg p.hz_ne_zero, picos_eq]
  rfl

theorem takenAs_ofTotal (h : Ticks.Representable p.picos) : p.TakenAs (.ofTotal p.picos) where
  taken := p.ofParts?_eq
  fits := p.checkedPicos?_eq
  stores := Ticks.stores_ofTotal h

theorem inOrder_ofTotal (hp : Ticks.Representable p.picos) (hq : Ticks.Representable q.picos) :
    p.InOrder q (.ofTotal p.picos) (.ofTotal q.picos) where
  le h := (Ticks.ofTotal_le_iff hp hq).mpr (picos_le_picos h)
  eq h := by
    unfold picos
    rw [h]
  lt_iff hp' hq' := (Ticks.ofTotal_lt_iff hp hq).trans (picos_lt_iff hp' hq')
  eq_iff hp' hq' := by
    have htotals : Instant.ofTotal p.picos = .ofTotal q.picos ↔ p.picos = q.picos := by
      rw [Instant.eq_iff_total_eq (Instant.ofTotal_normal _) (Instant.ofTotal_normal _)]
      exact Eq.congr (Ticks.total_ofTotal hp) (Ticks.total_ofTotal hq)
    exact htotals.trans (picos_eq_iff hp' hq')

/-- Whatever two clocks count in, the values that are taken for their times are in the order of the
rational numbers of seconds. -/
theorem taken_in_order (hp : Ticks.Representable p.picos) (hq : Ticks.Representable q.picos) :
    ∃ s t, p.TakenAs s ∧ q.TakenAs t ∧ p.InOrder q s t :=
  ⟨_, _, takenAs_ofTotal hp, takenAs_ofTotal hq, inOrder_ofTotal hp hq⟩

/-- Three halves of a second, from one second before the epoch on. -/
def threeHalves : Parts := ⟨-1, 3, 2, by decide⟩

def halfInMicros : Parts := ⟨0, 500000, 1000000, by decide⟩

/-- Half a second after the epoch is the same however it is counted. -/
theorem taken_in_order_halves :
    Ticks.Representable threeHalves.picos ∧ Ticks.Representable halfInMicros.picos ∧
      (∃ s t, threeHalves.TakenAs s ∧ halfInMicros.TakenAs t ∧ threeHalves.InOrder halfInMicros s t) ∧
      Instant.ofParts? (-1) 3 2 = Instant.ofParts? 0 500000 1000000 := by
  have hhalves : Ticks.Representable threeHalves.picos := by
    rw [picos_eq]
    decide
  have hmicros : Ticks.Representable halfInMicros.picos := by
    rw [picos_eq]
    decide
  exact ⟨hhalves, hmicros, taken_in_order hhalves hmicros, by decide +kernel⟩

end Parts
end Timekeeping
