import Timekeeping.Number.Binary64
import Mathlib.Algebra.Order.Field.Power
import Mathlib.Data.Int.Log
import Mathlib.Data.Rat.Floor
import Mathlib.Tactic.FieldSimp
import Mathlib.Tactic.Linarith
import Mathlib.Tactic.Positivity
import Mathlib.Tactic.Ring

/-!
How far rounding to binary64 moves a positive number. The numbers of the format around it are
multiples of a power of two, which its binary logarithm determines; the nearest of them is off by
at most half of that power.
-/
namespace Timekeeping.Binary64

theorem twoTo_eq (e : Int) : twoTo e = 2 ^ e := by
  unfold twoTo
  split
  · next h =>
    obtain ⟨n, rfl⟩ := Int.eq_ofNat_of_zero_le h
    simp [Int.shiftLeft_eq, Rat.mkRat_eq_div]
  · next h =>
    obtain ⟨n, hn⟩ := Int.eq_ofNat_of_zero_le (a := -e) (by omega)
    obtain rfl : e = -n := by omega
    simp [Nat.one_shiftLeft, Rat.mkRat_eq_div]

variable {num den : Nat}

/-- A fraction is compared with a power of two by shifting whichever side keeps both whole. -/
theorem reaches_twoTo_iff (e : Int) (hden : 0 < den) :
    (if 0 ≤ e then decide (den <<< e.toNat ≤ num) else decide (den ≤ num <<< (-e).toNat)) = true ↔
      (2 : Rat) ^ e ≤ num / den := by
  have hden' : (0 : Rat) < den := by exact_mod_cast hden
  rw [le_div_iff₀ hden']
  split
  · next h =>
    obtain ⟨n, rfl⟩ := Int.eq_ofNat_of_zero_le h
    rw [decide_eq_true_iff, Int.toNat_natCast, Nat.shiftLeft_eq, zpow_natCast, mul_comm]
    exact_mod_cast Iff.rfl
  · next h =>
    obtain ⟨n, hn⟩ := Int.eq_ofNat_of_zero_le (a := -e) (by omega)
    obtain rfl : e = -n := by omega
    rw [decide_eq_true_iff, hn, Int.toNat_natCast, Nat.shiftLeft_eq, zpow_neg, zpow_natCast,
      inv_mul_le_iff₀ (by positivity), mul_comm]
    exact_mod_cast Iff.rfl

/-- The lengths of numerator and denominator leave two powers of two to choose from. -/
theorem log_bounds (hnum : 0 < num) (hden : 0 < den) :
    (num.log2 : Int) - den.log2 - 1 ≤ Int.log 2 ((num : Rat) / den) ∧
      Int.log 2 ((num : Rat) / den) ≤ num.log2 - den.log2 := by
  have hn : (2 : Rat) ^ num.log2 ≤ num := by exact_mod_cast Nat.log2_self_le hnum.ne'
  have hn' : (num : Rat) < 2 ^ (num.log2 + 1) := by exact_mod_cast Nat.lt_log2_self
  have hd : (2 : Rat) ^ den.log2 ≤ den := by exact_mod_cast Nat.log2_self_le hden.ne'
  have hd' : (den : Rat) < 2 ^ (den.log2 + 1) := by exact_mod_cast Nat.lt_log2_self
  have hden' : (0 : Rat) < den := by exact_mod_cast hden
  have hpos : (0 : Rat) < num / den := by positivity
  constructor
  · rw [← Int.zpow_le_iff_le_log (by decide) hpos, le_div_iff₀ hden']
    have hpow : ((2 : Nat) : Rat) ^ ((num.log2 : Int) - den.log2 - 1) * 2 ^ (den.log2 + 1) =
        2 ^ num.log2 := by
      rw [← zpow_natCast, ← zpow_natCast, Nat.cast_ofNat, ← zpow_add₀ (by norm_num)]
      congr 1
      omega
    calc ((2 : Nat) : Rat) ^ ((num.log2 : Int) - den.log2 - 1) * den
        ≤ ((2 : Nat) : Rat) ^ ((num.log2 : Int) - den.log2 - 1) * 2 ^ (den.log2 + 1) := by gcongr
      _ ≤ num := hpow.trans_le hn
  · rw [← Int.lt_add_one_iff, ← Int.lt_zpow_iff_log_lt (by decide) hpos, div_lt_iff₀ hden']
    have hpow : ((2 : Nat) : Rat) ^ ((num.log2 : Int) - den.log2 + 1) * 2 ^ den.log2 =
        2 ^ (num.log2 + 1) := by
      rw [← zpow_natCast, ← zpow_natCast, Nat.cast_ofNat, ← zpow_add₀ (by norm_num)]
      congr 1
      omega
    calc (num : Rat) < 2 ^ (num.log2 + 1) := hn'
      _ = ((2 : Nat) : Rat) ^ ((num.log2 : Int) - den.log2 + 1) * 2 ^ den.log2 := hpow.symm
      _ ≤ ((2 : Nat) : Rat) ^ ((num.log2 : Int) - den.log2 + 1) * den := by gcongr

theorem binaryExponent_eq_log (hnum : 0 < num) (hden : 0 < den) :
    binaryExponent num den = Int.log 2 ((num : Rat) / den) := by
  have hpos : (0 : Rat) < num / den := by positivity
  have hbounds := log_bounds hnum hden
  have hreached := @reaches_twoTo_iff num den ((num.log2 : Int) - den.log2) hden
  have hlog := Int.zpow_le_iff_le_log (b := 2) (x := (num.log2 : Int) - den.log2) (by decide) hpos
  rw [Nat.cast_ofNat] at hlog
  rw [hlog] at hreached
  unfold binaryExponent
  dsimp only
  by_cases hle : (num.log2 : Int) - den.log2 ≤ Int.log 2 ((num : Rat) / den)
  · rw [if_pos (hreached.mpr hle)]
    omega
  · rw [if_neg (mt hreached.mp hle)]
    omega

/-- The exponent of the spacing of the format at a positive number. -/
def spacingAt (x : Rat) : Int := max (Int.log 2 x - 52) (-1074)

theorem roundHalfEven_bounds (num : Nat) (hden : 0 < den) :
    2 * (roundHalfEven num den * den) ≤ 2 * num + den ∧
      2 * num ≤ 2 * (roundHalfEven num den * den) + den := by
  have hsplit := Nat.div_add_mod' num den
  have hrest := Nat.mod_lt num hden
  have hnext : (num / den + 1) * den = num / den * den + den := Nat.succ_mul _ _
  unfold roundHalfEven
  dsimp only
  split_ifs
  · omega
  · rw [hnext]
    omega
  · omega
  · rw [hnext]
    omega

theorem roundHalfEven_error (num : Nat) (hden : 0 < den) :
    |(roundHalfEven num den : Rat) - num / den| ≤ 1 / 2 := by
  obtain ⟨hhigh, hlow⟩ := roundHalfEven_bounds num hden
  have hden' : (0 : Rat) < den := by exact_mod_cast hden
  have hhigh' : 2 * (roundHalfEven num den * den : Rat) ≤ 2 * num + den := by exact_mod_cast hhigh
  have hlow' : 2 * (num : Rat) ≤ 2 * (roundHalfEven num den * den) + den := by exact_mod_cast hlow
  have hdiff : (roundHalfEven num den : Rat) - num / den =
      (roundHalfEven num den * den - num) / den := by field_simp
  rw [hdiff, abs_le, le_div_iff₀ hden', div_le_iff₀ hden']
  constructor <;> linarith

/-- The mantissa is the fraction, counted in steps of the spacing, and rounded. -/
theorem exists_nearest_eq (hnum : 0 < num) (hden : 0 < den) :
    ∃ n d : Nat, 0 < d ∧ (n : Rat) / d = num / den / 2 ^ spacingAt (num / den) ∧
      nearest num den = (roundHalfEven n d, spacingAt (num / den)) := by
  have hspacing : spacing num den = spacingAt (num / den) := by
    unfold spacing spacingAt
    rw [binaryExponent_eq_log hnum hden]
  unfold nearest
  rw [hspacing]
  generalize spacingAt ((num : Rat) / den) = e
  dsimp only
  split
  · next h =>
    obtain ⟨k, rfl⟩ := Int.eq_ofNat_of_zero_le h
    refine ⟨num, den <<< k, ?_, ?_, rfl⟩
    · rw [Nat.shiftLeft_eq]
      positivity
    · rw [Nat.shiftLeft_eq, zpow_natCast]
      push_cast
      rw [div_div]
  · next h =>
    obtain ⟨k, hk⟩ := Int.eq_ofNat_of_zero_le (a := -e) (by omega)
    obtain rfl : e = -k := by omega
    refine ⟨num <<< k, den, hden, ?_, ?_⟩
    · rw [Nat.shiftLeft_eq, zpow_neg, zpow_natCast, div_inv_eq_mul]
      push_cast
      ring
    · rw [hk, Int.toNat_natCast]

/-- The size of a number is rounded to a multiple of the spacing that is off by at most half of it,
and is infinite if this is too large for the format. -/
theorem exists_round_eq {x : Rat} (hx : x ≠ 0) : ∃ m : Nat,
    |m * 2 ^ spacingAt (|x|) - (|x|)| ≤ 2 ^ spacingAt (|x|) / 2 ∧
      round x = if (2 : Rat) ^ (1024 : Int) ≤ m * 2 ^ spacingAt (|x|) then infinite (decide (x < 0))
        else finite (if x < 0 then -(m * 2 ^ spacingAt (|x|)) else m * 2 ^ spacingAt (|x|)) := by
  have hnum : 0 < x.num.natAbs := Int.natAbs_pos.mpr (Rat.num_ne_zero.mpr hx)
  have hfraction : (x.num.natAbs : Rat) / x.den = |x| := by
    rw [Nat.cast_natAbs, Int.cast_abs, ← Nat.abs_cast x.den, ← abs_div, Rat.num_div_den]
  obtain ⟨n, d, hd, hquotient, hnearest⟩ := exists_nearest_eq hnum x.den_pos
  rw [hfraction] at hquotient hnearest
  have herror := roundHalfEven_error n hd
  rw [hquotient] at herror
  refine ⟨roundHalfEven n d, ?_, ?_⟩
  · have hstep : (0 : Rat) < 2 ^ spacingAt (|x|) := by positivity
    have hscaled : (roundHalfEven n d : Rat) * 2 ^ spacingAt (|x|) - (|x|) =
        (roundHalfEven n d - |x| / 2 ^ spacingAt (|x|)) * 2 ^ spacingAt (|x|) := by field_simp
    rw [hscaled, abs_mul, abs_of_pos hstep]
    calc |(roundHalfEven n d : Rat) - |x| / 2 ^ spacingAt (|x|)| * 2 ^ spacingAt (|x|)
        ≤ 1 / 2 * 2 ^ spacingAt (|x|) := mul_le_mul_of_nonneg_right herror hstep.le
      _ = 2 ^ spacingAt (|x|) / 2 := by ring
  · unfold round overflowBound
    rw [if_neg hx, hnearest]
    dsimp only
    rw [twoTo_eq, twoTo_eq]

/-- A positive number is rounded to a multiple of the spacing that is off by at most half of it,
unless this is too large for the format. -/
theorem round_spec {x : Rat} (hx : 0 < x) :
    round x = infinite false ∨ ∃ m : Nat, round x = finite (m * 2 ^ spacingAt x) ∧
      |m * 2 ^ spacingAt x - x| ≤ 2 ^ spacingAt x / 2 := by
  obtain ⟨m, herror, hround⟩ := exists_round_eq hx.ne'
  rw [abs_of_pos hx] at herror hround
  rw [if_neg (not_lt.mpr hx.le), decide_eq_false (not_lt.mpr hx.le)] at hround
  split at hround
  · exact .inl hround
  · exact .inr ⟨m, hround, herror⟩

variable {x s : Rat}

theorem exists_steps_of_round (hx : 0 < x) (h : round x = finite s) :
    ∃ m : Nat, s = m * 2 ^ spacingAt x ∧ |s - x| ≤ 2 ^ spacingAt x / 2 := by
  rcases round_spec hx with hinfinite | ⟨m, hm, herror⟩
  · rw [hinfinite] at h
    cases h
  · obtain rfl : m * 2 ^ spacingAt x = s := finite.inj (hm.symm.trans h)
    exact ⟨m, rfl, herror⟩

theorem nonneg_of_round (hx : 0 < x) (h : round x = finite s) : 0 ≤ s := by
  obtain ⟨m, rfl, -⟩ := exists_steps_of_round hx h
  positivity

/-- Below a power of two the spacing is at most that power over `2 ^ 53`. -/
theorem spacingAt_le {j : Int} (hx : 0 < x) (hlt : x < 2 ^ j) (hj : -1021 ≤ j) :
    spacingAt x ≤ j - 53 := by
  have hlog : Int.log 2 x < j := (Int.lt_zpow_iff_log_lt (by decide) hx).mp (by exact_mod_cast hlt)
  unfold spacingAt
  omega

/-- What is less than half of the bound of the format in size has a finite form. -/
theorem exists_round_eq_finite (h : |x| < 2 ^ (1023 : Int)) : ∃ s, round x = finite s := by
  by_cases hx : x = 0
  · exact ⟨0, by rw [hx]; rfl⟩
  · obtain ⟨m, herror, hround⟩ := exists_round_eq hx
    have hexponent : spacingAt (|x|) ≤ 1023 :=
      (spacingAt_le (abs_pos.mpr hx) h (by decide)).trans (by decide)
    have hstep : (2 : Rat) ^ spacingAt (|x|) ≤ 2 ^ (1023 : Int) :=
      zpow_le_zpow_right₀ (by norm_num) hexponent
    have hbound : (2 : Rat) ^ (1024 : Int) = 2 ^ (1023 : Int) * 2 := zpow_add_one₀ (by norm_num) 1023
    have hsize : (m : Rat) * 2 ^ spacingAt (|x|) < 2 ^ (1024 : Int) := by
      have herror := (abs_le.mp herror).2
      rw [hbound]
      generalize (2 : Rat) ^ (1023 : Int) = half at h hstep
      linarith [abs_nonneg x]
    rw [if_neg (not_le.mpr hsize)] at hround
    exact ⟨_, hround⟩

theorem round_error_le {j : Int} (hx : 0 < x) (hlt : x < 2 ^ j) (hj : -1021 ≤ j)
    (h : round x = finite s) : |s - x| ≤ 2 ^ (j - 54) := by
  obtain ⟨-, -, herror⟩ := exists_steps_of_round hx h
  have hspacing : (2 : Rat) ^ spacingAt x ≤ 2 ^ (j - 53) :=
    zpow_le_zpow_right₀ (by norm_num) (spacingAt_le hx hlt hj)
  have hhalf : (2 : Rat) ^ (j - 53) / 2 = 2 ^ (j - 54) := by
    rw [div_eq_mul_inv, ← zpow_sub_one₀ (by norm_num)]
    congr 1
    omega
  linarith

/-- A number from one on is moved by a small part of it. -/
theorem round_error_le_mul (hx : 1 ≤ x) (h : round x = finite s) : |s - x| ≤ x / 2 ^ 53 := by
  have hpos : 0 < x := by linarith
  obtain ⟨-, -, herror⟩ := exists_steps_of_round hpos h
  have hlog : 0 ≤ Int.log 2 x :=
    (Int.zpow_le_iff_le_log (by decide) hpos).mp (by simpa using hx)
  have hspacing : spacingAt x = Int.log 2 x - 52 := by
    unfold spacingAt
    omega
  have hpower : (2 : Rat) ^ Int.log 2 x ≤ x := by
    exact_mod_cast Int.zpow_log_le_self (by decide) hpos
  rw [hspacing, zpow_sub₀ (by norm_num)] at herror
  calc |s - x| ≤ 2 ^ Int.log 2 x / 2 ^ (52 : Int) / 2 := herror
    _ ≤ x / 2 ^ (52 : Int) / 2 := by gcongr
    _ = x / 2 ^ 53 := by norm_num; ring

/-- What lies far beyond the bound of the format is rounded to infinity. -/
theorem round_eq_infinite (h : (2 : Rat) ^ (1025 : Int) ≤ x) : round x = infinite false := by
  have hx : 0 < x := lt_of_lt_of_le (by positivity) h
  obtain ⟨m, herror, hround⟩ := exists_round_eq hx.ne'
  rw [abs_of_pos hx] at herror hround
  have hlog : 1025 ≤ Int.log 2 x :=
    (Int.zpow_le_iff_le_log (by decide) hx).mp (by exact_mod_cast h)
  have hspacing : spacingAt x ≤ Int.log 2 x := by
    unfold spacingAt
    omega
  have hstep : (2 : Rat) ^ spacingAt x ≤ x :=
    (zpow_le_zpow_right₀ (by norm_num) hspacing).trans
      (by exact_mod_cast Int.zpow_log_le_self (by decide) hx)
  have hbound : (2 : Rat) ^ (1025 : Int) = 2 ^ (1024 : Int) * 2 := zpow_add_one₀ (by norm_num) 1024
  have hsize : (2 : Rat) ^ (1024 : Int) ≤ m * 2 ^ spacingAt x := by
    have herror := (abs_le.mp herror).1
    rw [hbound] at h
    linarith
  rw [hround, if_pos hsize, decide_eq_false (not_lt.mpr hx.le)]

/-- What is less than half of the least number of the format is rounded to zero. -/
theorem round_eq_zero (hx : 0 < x) (h : x < 2 ^ (-1075 : Int)) : round x = finite 0 := by
  have hbound : (2 : Rat) ^ (-1075 : Int) ≤ 2 ^ (1023 : Int) :=
    zpow_le_zpow_right₀ (by norm_num) (by decide)
  obtain ⟨s, hs⟩ := exists_round_eq_finite (x := x) (by rw [abs_of_pos hx]; linarith)
  obtain ⟨m, rfl, herror⟩ := exists_steps_of_round hx hs
  have hspacing : spacingAt x = -1074 := by
    have hlog : Int.log 2 x < -1075 :=
      (Int.lt_zpow_iff_log_lt (by decide) hx).mp (by exact_mod_cast h)
    unfold spacingAt
    omega
  rw [hspacing] at herror hs
  have hstep : (2 : Rat) ^ (-1074 : Int) = 2 ^ (-1075 : Int) * 2 :=
    zpow_add_one₀ (by norm_num) (-1075)
  have hpos : (0 : Rat) < 2 ^ (-1075 : Int) := by positivity
  have herror := (abs_le.mp herror).2
  rw [hstep] at herror hs
  generalize (2 : Rat) ^ (-1075 : Int) = half at *
  have hm : (m : Rat) < 1 := by
    have hlt : (m : Rat) * (half * 2) < 1 * (half * 2) := by linarith
    exact lt_of_mul_lt_mul_right hlt (by linarith)
  obtain rfl : m = 0 := by
    have : m < 1 := by exact_mod_cast hm
    omega
  simpa using hs

/-- Where the spacing is one or more, all numbers of the format are whole. -/
theorem lt_of_round_of_den_ne_one (hx : 0 < x) (h : round x = finite s) (hs : s.den ≠ 1) :
    s < 2 ^ 53 := by
  obtain ⟨m, hm, -⟩ := exists_steps_of_round hx h
  have hspacing : spacingAt x < 0 := by
    by_contra hnonneg
    obtain ⟨n, hn⟩ := Int.eq_ofNat_of_zero_le (not_lt.mp hnonneg)
    apply hs
    rw [hm, hn]
    exact_mod_cast Rat.den_natCast (m * 2 ^ n)
  have hlog : Int.log 2 x < 52 := by
    unfold spacingAt at hspacing
    omega
  have hlt : x < 2 ^ (52 : Int) := by
    exact_mod_cast (Int.lt_zpow_iff_log_lt (by decide) hx).mpr hlog
  have herror := abs_le.mp (round_error_le hx hlt (by decide) h)
  norm_num at hlt herror ⊢
  linarith

/-- The size of a word's number: a subnormal mantissa, or one with its leading bit put back. -/
theorem exists_mantissa (field fraction : Nat) (hfraction : fraction < 2 ^ 52) :
    ∃ (m : Nat) (e : Int), m < 2 ^ 53 ∧
      (if field = 0 then (fraction : Rat) * twoTo (-1074)
        else ((1 <<< 52 + fraction : Nat) : Rat) * twoTo ((field : Int) - 1075)) = m * 2 ^ e := by
  split
  · exact ⟨fraction, -1074, by omega, by rw [twoTo_eq]⟩
  · exact ⟨1 <<< 52 + fraction, (field : Int) - 1075, by omega, by rw [twoTo_eq]⟩

theorem exists_mantissa_of_ofWord {w : UInt64} {q : Rat} (h : ofWord w = finite q) (hq : 0 < q) :
    ∃ (m : Nat) (e : Int), m < 2 ^ 53 ∧ q = m * 2 ^ e := by
  obtain ⟨m, e, hm, hsize⟩ := exists_mantissa ((w.toNat >>> 52) % 2048) (w.toNat % (1 <<< 52))
    (Nat.mod_lt _ (by decide))
  unfold ofWord at h
  dsimp only at h
  rw [hsize] at h
  split at h
  · split at h <;> cases h
  · have hnumber := finite.inj h
    have hnonneg : (0 : Rat) ≤ m * 2 ^ e := by positivity
    split at hnumber
    · linarith
    · exact ⟨m, e, hm, hnumber.symm⟩

/-- What a number has beside its integer part is less than one. -/
theorem abs_sub_truncate_lt (q : Rat) : |q - truncate q| < 1 := by
  have hden : (0 : Rat) < q.den := by exact_mod_cast q.den_pos
  have hsplit : (q.num : Rat) = q.den * truncate q + q.num.tmod q.den := by
    exact_mod_cast (Int.mul_tdiv_add_tmod q.num q.den).symm
  have hrest : q - truncate q = q.num.tmod q.den / q.den := by
    rw [eq_div_iff hden.ne', sub_mul, Rat.mul_den_eq_num, hsplit]
    ring
  have hlt : |q.num.tmod q.den| < q.den := by
    rw [Int.abs_eq_natAbs, Int.natAbs_tmod]
    exact_mod_cast Nat.mod_lt _ q.den_pos
  rw [hrest, abs_div, abs_of_pos hden, div_lt_one hden]
  exact_mod_cast hlt

end Timekeeping.Binary64
