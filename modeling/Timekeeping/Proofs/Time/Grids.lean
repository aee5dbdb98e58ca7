import Timekeeping.Proofs.Number.Rounding
import Timekeeping.Proofs.Time.Multiples
import Mathlib.Order.Bounds.Defs

/-!
The grid of multiples of a period in seconds. The period is doubled until it is a whole number of
ticks, and the multiple is found among these. It is the least after an instant on the grid whose
step is that number of ticks, and it is exact when the doubling came to an end.
-/
namespace Timekeeping

/-- So many doublings make a number whole and fewer do not, or they are 64. -/
structure Doublings (s : Rat) (k : Nat) : Prop where
  le : k ≤ 64
  not_whole : ∀ j < k, (s * 2 ^ j).den ≠ 1
  whole : k < 64 → (s * 2 ^ k).den = 1

/-- A number after some doublings, to the nearest integer. -/
def stepAfter (s : Rat) (k : Nat) : Int := Binary64.roundHalfAway (s * 2 ^ k)

/-- A number that a word of 128 bits can hold. -/
def FitsWord (n : Int) : Prop := Duration.minTotal ≤ n ∧ n ≤ Duration.maxTotal

instance (n : Int) : Decidable (FitsWord n) := inferInstanceAs (Decidable (_ ∧ _))

namespace Binary64

def Positive (period : Binary64) : Prop := ∃ q, 0 < q ∧ period = finite q

/-- A positive number of seconds is `s` picoseconds in the format. -/
def LastsPicos (period : Binary64) (s : Rat) : Prop :=
  period.Positive ∧ period.scale (10 ^ 12) = finite s

variable {period : Binary64} {s : Rat}

theorem LastsPicos.exists_eq (h : period.LastsPicos s) :
    ∃ q, 0 < q ∧ period = finite q ∧ round (q * 10 ^ 12) = finite s := by
  obtain ⟨⟨q, hq, rfl⟩, hpicos⟩ := h
  exact ⟨q, hq, rfl, hpicos⟩

theorem LastsPicos.unique {s' : Rat} (h : period.LastsPicos s) (h' : period.LastsPicos s') :
    s = s' :=
  finite.inj (h.2.symm.trans h'.2)

/-- The picoseconds of a positive period are a number of the format or beyond all of them. -/
theorem Positive.lasts_or_infinite (h : period.Positive) :
    (∃ s, period.LastsPicos s) ∨ period.scale (10 ^ 12) = infinite false := by
  have hpositive := h
  obtain ⟨q, hq, rfl⟩ := h
  rcases round_spec (x := q * 10 ^ 12) (by positivity) with hround | ⟨m, hround, -⟩
  · exact .inr hround
  · exact .inl ⟨_, hpositive, hround⟩

theorem LastsPicos.nonneg (h : period.LastsPicos s) : 0 ≤ s := by
  obtain ⟨q, hq, -, hround⟩ := h.exists_eq
  exact nonneg_of_round (by positivity) hround

/-- No word stands for a number strictly between two neighbours around `10 ^ 25`. -/
theorem le_or_le_of_ofWord {w : UInt64} {q : Rat} (h : ofWord w = finite q) (hq : 0 < q) :
    q ≤ 4656612873077392 * 2 ^ 31 ∨ 4656612873077393 * 2 ^ 31 ≤ q := by
  obtain ⟨m, e, hm, rfl⟩ := exists_mantissa_of_ofWord h hq
  have hm' : (m : Rat) ≤ 2 ^ 53 := by exact_mod_cast hm.le
  by_cases he : e ≤ 30
  · left
    have hpower : (2 : Rat) ^ e ≤ 2 ^ (30 : Int) := zpow_le_zpow_right₀ (by norm_num) he
    calc (m : Rat) * 2 ^ e ≤ 2 ^ 53 * 2 ^ (30 : Int) := by gcongr
      _ ≤ 4656612873077392 * 2 ^ 31 := by norm_num
  · obtain ⟨n, hn⟩ := Int.eq_ofNat_of_zero_le (a := e - 31) (by omega)
    obtain rfl : e = n + (31 : Nat) := by omega
    rw [zpow_add₀ (by norm_num), zpow_natCast, zpow_natCast, ← mul_assoc]
    rcases Nat.lt_or_ge (m * 2 ^ n) 4656612873077393 with hlt | hge
    · left
      have hle : (m : Rat) * 2 ^ n ≤ 4656612873077392 := by exact_mod_cast Nat.le_of_lt_succ hlt
      gcongr
    · right
      have hle : (4656612873077393 : Rat) ≤ m * 2 ^ n := by exact_mod_cast hge
      gcongr

/-- The bound on ticks lies a little below `10 ^ 37`, but no product of a word falls in between. -/
theorem tickBound_le_iff {w : UInt64} (h : (ofWord w).LastsPicos s) :
    Instant.tickBound ≤ s ↔ 10 ^ 37 ≤ s := by
  obtain ⟨q, hq, hword, hround⟩ := h.exists_eq
  have hpos : 0 < q * 10 ^ 12 := by positivity
  unfold Instant.tickBound
  constructor
  · intro hs
    -- Below `2 ^ 123` rounding moves the product by at most `2 ^ 69`, too little to lead from one
    -- neighbour past the bound.
    by_cases hsmall : q * 10 ^ 12 < 2 ^ (123 : Int)
    · have herror := abs_le.mp (round_error_le hpos hsmall (by decide) hround)
      norm_num at herror
      rcases le_or_le_of_ofWord hword hq with hbelow | habove
      · norm_num at hbelow
        linarith
      · norm_num at habove
        linarith
    · have hlarge := not_lt.mp hsmall
      norm_num at hlarge
      have herror := abs_le.mp (round_error_le_mul (by linarith) hround)
      norm_num at herror
      linarith
  · intro hs
    linarith

theorem roundHalfAway_intCast (n : Int) : roundHalfAway n = n := by
  have hhalf : (2 * n.natAbs + 1) / (2 * 1) = n.natAbs := by omega
  unfold roundHalfAway
  rw [Rat.num_intCast, Rat.den_intCast, hhalf]
  dsimp only
  rw [Int.ofNat_eq_natCast]
  split
  · next hneg =>
    have hn : n < 0 := by exact_mod_cast hneg
    omega
  · next hnonneg =>
    have hn : 0 ≤ n := by exact_mod_cast not_lt.mp hnonneg
    omega

theorem roundHalfAway_nonneg {q : Rat} (hq : 0 ≤ q) : 0 ≤ roundHalfAway q := by
  unfold roundHalfAway
  dsimp only
  rw [if_neg (not_lt.mpr hq)]
  exact Int.natCast_nonneg _

end Binary64

variable {s : Rat} {k : Nat}

theorem Doublings.unique {j : Nat} (hj : Doublings s j) (hk : Doublings s k) : j = k := by
  rcases Nat.lt_trichotomy j k with hlt | heq | hlt
  · exact absurd (hj.whole (Nat.lt_of_lt_of_le hlt hk.le)) (hk.not_whole j hlt)
  · exact heq
  · exact absurd (hk.whole (Nat.lt_of_lt_of_le hlt hj.le)) (hj.not_whole k hlt)

/-- So it is after doubling: what is not whole at first is too small to come near the bound. -/
theorem Doublings.tickBound_le_iff (hk : Doublings s k) {w : UInt64}
    (h : (Binary64.ofWord w).LastsPicos s) :
    Instant.tickBound ≤ s * 2 ^ k ↔ 10 ^ 37 ≤ s * 2 ^ k := by
  cases k with
  | zero => simpa using Binary64.tickBound_le_iff h
  | succ k =>
    obtain ⟨q, hq, -, hround⟩ := h.exists_eq
    have hpart : s.den ≠ 1 := by simpa using hk.not_whole 0 (Nat.succ_pos k)
    have hlt : s < 2 ^ 53 := Binary64.lt_of_round_of_den_ne_one (by positivity) hround hpart
    have hpower : (2 : Rat) ^ (k + 1) ≤ 2 ^ 64 := pow_le_pow_right₀ (by norm_num) hk.le
    have hsmall : s * 2 ^ (k + 1) ≤ 2 ^ 53 * 2 ^ 64 := by
      have hnonneg := h.nonneg
      gcongr
    unfold Instant.tickBound
    norm_num at hsmall ⊢
    constructor <;> intro hreached <;> linarith

/-- If any number of doublings up to 64 makes a number whole, then the grid is exact. -/
theorem Doublings.stepAfter_div (hk : Doublings s k) {j : Nat} (hj : j ≤ 64) {n : Int}
    (hn : s * 2 ^ j = n) : (stepAfter s k : Rat) / 2 ^ k = s := by
  have hwholej : (s * 2 ^ j).den = 1 := by rw [hn, Rat.den_intCast]
  have hkj : k ≤ j := by
    by_contra hlt
    exact hk.not_whole j (by omega) hwholej
  have hwhole : (s * 2 ^ k).den = 1 := by
    by_cases hk64 : k < 64
    · exact hk.whole hk64
    · obtain rfl : k = j := by omega
      exact hwholej
  have hnum : ((s * 2 ^ k).num : Rat) = s * 2 ^ k := Rat.den_eq_one_iff _ |>.mp hwhole
  unfold stepAfter
  rw [← hnum, Binary64.roundHalfAway_intCast, hnum]
  field_simp

theorem doublings_intCast (n : Int) : Doublings n 0 :=
  ⟨Nat.zero_le 64, fun _ hj => absurd hj (Nat.not_lt_zero _), fun _ => by simp⟩

theorem stepAfter_intCast (n : Int) : stepAfter n 0 = n := by
  unfold stepAfter
  rw [pow_zero, mul_one, Binary64.roundHalfAway_intCast]

theorem stepAfter_nonneg {s : Rat} (hs : 0 ≤ s) (k : Nat) : 0 ≤ stepAfter s k :=
  Binary64.roundHalfAway_nonneg (by positivity)

theorem Ticks.fitsWord_total (t : Ticks) : FitsWord t.total := by
  have hlow := t.le_total
  have hhigh := t.total_lt
  rw [Int64.toInt_minValue] at hlow
  rw [Int64.toInt_maxValue] at hhigh
  unfold picosPerSecond at hlow hhigh
  unfold FitsWord Duration.minTotal Duration.maxTotal
  omega

namespace Instant

/-- What a search with some doublings left comes to. -/
theorem exists_refine_eq (n : Nat) (ticks : Rat) (factor : Int) :
    ∃ k ≤ n, refine n ticks factor = (ticks * 2 ^ k, factor * 2 ^ k) ∧
      (∀ j < k, (ticks * 2 ^ j).den ≠ 1) ∧ (k < n → (ticks * 2 ^ k).den = 1) := by
  induction n generalizing ticks factor with
  | zero => exact ⟨0, Nat.le_refl 0, by simp [refine], by simp, by simp⟩
  | succ n ih =>
    unfold refine
    split
    · next hwhole => exact ⟨0, Nat.zero_le _, by simp, by simp, fun _ => by simpa using hwhole⟩
    · next hpart =>
      -- The rest of the search starts from the double, so its count is one behind.
      obtain ⟨k, hk, heq, hbefore, hafter⟩ := ih (ticks * 2) (factor * 2)
      have hpow (j : Nat) : ticks * 2 * 2 ^ j = ticks * 2 ^ (j + 1) := by ring
      have hpow' : factor * 2 * 2 ^ k = factor * 2 ^ (k + 1) := by ring
      simp only [hpow] at heq hbefore hafter
      refine ⟨k + 1, Nat.succ_le_succ hk, heq.trans (by rw [hpow']), ?_, ?_⟩
      · intro j hj
        cases j with
        | zero => simpa using hpart
        | succ j => exact hbefore j (Nat.lt_of_succ_lt_succ hj)
      · exact fun hlt => hafter (Nat.lt_of_succ_lt_succ hlt)

theorem exists_doublings (s : Rat) : ∃ k, Doublings s k := by
  obtain ⟨k, hk, -, hbefore, hafter⟩ := exists_refine_eq 64 s 1
  exact ⟨k, hk, hbefore, hafter⟩

theorem refine_eq (hk : Doublings s k) : refine 64 s 1 = (s * 2 ^ k, 2 ^ k) := by
  obtain ⟨j, hj, heq, hbefore, hafter⟩ := exists_refine_eq 64 s 1
  obtain rfl := Doublings.unique ⟨hj, hbefore, hafter⟩ hk
  rw [heq, Int.one_mul]

theorem checkTotal_eq (n : Int) : checkTotal n = if FitsWord n then some n else none := rfl

/-- The count of multiples needs no check of its own: what it is multiplied by is positive. -/
theorem nextMultiple?_of_fits {ticks step : Int} (hticks : FitsWord ticks) (hstep : 0 < step) :
    nextMultiple? ticks step = checkTotal ((ticks / step + 1) * step) := by
  have hlow : Duration.minTotal ≤ ticks / step := by
    rw [Int.le_ediv_iff_mul_le hstep]
    have hscale : Duration.minTotal * step ≤ Duration.minTotal * 1 :=
      Int.mul_le_mul_of_nonpos_left (by decide) hstep
    have hbelow := hticks.1
    omega
  unfold nextMultiple?
  by_cases hfits : FitsWord (ticks / step + 1)
  · rw [checkTotal_eq (ticks / step + 1), if_pos hfits]
    rfl
  · -- A count beyond the word makes a product that is beyond it too.
    have hhigh : Duration.maxTotal < ticks / step + 1 := by
      unfold FitsWord at hfits
      omega
    have hproduct : (ticks / step + 1) * 1 ≤ (ticks / step + 1) * step := by
      refine Int.mul_le_mul_of_nonneg_left hstep ?_
      unfold Duration.maxTotal at hhigh
      omega
    have hover : ¬ FitsWord ((ticks / step + 1) * step) := by
      rintro ⟨-, hbelow⟩
      omega
    rw [checkTotal_eq (ticks / step + 1), if_neg hfits, checkTotal_eq, if_neg hover]
    rfl

/-- The first multiple of a step after an instant, both in `2 ^ k`-ths of a picosecond. -/
def tickAfter (t : Instant) (step : Int) (k : Nat) : Int :=
  (t.total * 2 ^ k / step + 1) * step

/-- The multiples of a step after an instant, in picoseconds from the epoch. -/
def gridAfter (t : Instant) (step : Rat) : Set Rat :=
  {x | t.total < x ∧ ∃ n : Int, x = n * step}

theorem isLeast_tickAfter (t : Instant) {step : Int} (hstep : 0 < step) (k : Nat) :
    IsLeast (t.gridAfter (step / 2 ^ k)) (t.tickAfter step k / 2 ^ k) := by
  have hscale : (0 : Rat) < 2 ^ k := by positivity
  constructor
  · constructor
    · rw [lt_div_iff₀ hscale]
      exact_mod_cast Int.lt_ediv_add_one_mul_self (t.total * 2 ^ k) hstep
    · refine ⟨t.total * 2 ^ k / step + 1, ?_⟩
      unfold tickAfter
      push_cast
      ring
  · rintro x ⟨hlater, n, rfl⟩
    rw [← mul_div_assoc, lt_div_iff₀ hscale] at hlater
    have hcount : t.total * 2 ^ k / step < n :=
      Int.ediv_lt_of_lt_mul hstep (by exact_mod_cast hlater)
    rw [← mul_div_assoc, div_le_div_iff_of_pos_right hscale]
    unfold tickAfter
    exact_mod_cast Int.mul_le_mul_of_nonneg_right hcount hstep.le

/-- A quotient with a remainder is rounded up. -/
theorem ediv_add_eq_ceil (n : Int) (k : Nat) :
    n / 2 ^ k + (if n % 2 ^ k = 0 then 0 else 1) = ⌈(n : Rat) / 2 ^ k⌉ := by
  have hscale : (0 : Int) < 2 ^ k := by positivity
  have hscale' : (0 : Rat) < 2 ^ k := by positivity
  have hsplit := Int.ediv_mul_add_emod n (2 ^ k)
  have hrest := Int.emod_nonneg n hscale.ne'
  have hrest' := Int.emod_lt_of_pos n hscale
  have hbelow : (n / 2 ^ k - 1) * 2 ^ k = n / 2 ^ k * 2 ^ k - 2 ^ k := by ring
  have habove : (n / 2 ^ k + 1) * 2 ^ k = n / 2 ^ k * 2 ^ k + 2 ^ k := by ring
  symm
  rw [Int.ceil_eq_iff, lt_div_iff₀ hscale', div_le_iff₀ hscale']
  split
  · have hlt : (n / 2 ^ k - 1) * 2 ^ k < n := by omega
    have hle : n ≤ n / 2 ^ k * 2 ^ k := by omega
    rw [Int.add_zero]
    exact ⟨by exact_mod_cast hlt, by exact_mod_cast hle⟩
  · have hlt : n / 2 ^ k * 2 ^ k < n := by omega
    have hle : n ≤ (n / 2 ^ k + 1) * 2 ^ k := by omega
    refine ⟨?_, by exact_mod_cast hle⟩
    rw [Int.cast_add, Int.cast_one, add_sub_cancel_right]
    exact_mod_cast hlt

theorem grid?_eq {period : Binary64} (h : period.LastsPicos s) (hk : Doublings s k) :
    grid? period = if tickBound ≤ s * 2 ^ k ∨ stepAfter s k ≤ 0 then none
      else some (stepAfter s k, 2 ^ k) := by
  obtain ⟨⟨q, hq, rfl⟩, hpicos⟩ := h
  have hpicos' : (Binary64.finite q).scale 1000000000000 = .finite s := by
    rw [← hpicos]
    norm_num
  unfold grid?
  dsimp only
  rw [if_neg (not_le.mpr hq), hpicos']
  dsimp only
  rw [refine_eq hk]
  dsimp only
  by_cases hbound : tickBound ≤ s * 2 ^ k
  · rw [if_pos hbound, if_pos (.inl hbound)]
  · rw [if_neg hbound]
    by_cases hstep : stepAfter s k ≤ 0
    · rw [if_pos (Or.inr hstep)]
      exact if_pos hstep
    · rw [if_neg (not_or.mpr ⟨hbound, hstep⟩)]
      exact if_neg hstep

/-- There is no multiple: the period has too many ticks or none, or a product does not fit its
word. -/
def Refused (t : Instant) (s : Rat) (k : Nat) : Prop :=
  (tickBound ≤ s * 2 ^ k ∨ stepAfter s k ≤ 0) ∨ ¬ FitsWord (t.total * 2 ^ k) ∨
    ¬ FitsWord (t.tickAfter (stepAfter s k) k)

instance (t : Instant) (s : Rat) (k : Nat) : Decidable (t.Refused s k) :=
  inferInstanceAs (Decidable (_ ∨ _))

theorem nextAlignedReal?_eq (t : Instant) {period : Binary64} (h : period.LastsPicos s)
    (hk : Doublings s k) :
    t.nextAlignedReal? period = if t.Refused s k then none
      else some (ofTotal ⌈(t.tickAfter (stepAfter s k) k : Rat) / 2 ^ k⌉) := by
  unfold nextAlignedReal?
  rw [grid?_eq h hk]
  by_cases hgrid : tickBound ≤ s * 2 ^ k ∨ stepAfter s k ≤ 0
  · have hrefused : t.Refused s k := .inl hgrid
    rw [if_pos hgrid, if_pos hrefused]
    rfl
  rw [if_neg hgrid]
  change (checkTotal (t.total * 2 ^ k)).bind _ = _
  by_cases hticks : FitsWord (t.total * 2 ^ k)
  · have hmultiple : nextMultiple? (t.total * 2 ^ k) (stepAfter s k) =
        checkTotal (t.tickAfter (stepAfter s k) k) :=
      nextMultiple?_of_fits hticks (Int.not_le.mp (not_or.mp hgrid).2)
    rw [checkTotal_eq, if_pos hticks]
    change (nextMultiple? (t.total * 2 ^ k) (stepAfter s k)).bind _ = _
    rw [hmultiple, checkTotal_eq]
    by_cases hnext : FitsWord (t.tickAfter (stepAfter s k) k)
    · have hnot : ¬ t.Refused s k := by
        rintro (h | h | h)
        · exact hgrid h
        · exact h hticks
        · exact h hnext
      rw [if_pos hnext, if_neg hnot, ← ediv_add_eq_ceil]
      rfl
    · have hrefused : t.Refused s k := .inr (.inr hnext)
      rw [if_neg hnext, if_pos hrefused]
      rfl
  · have hrefused : t.Refused s k := .inr (.inl hticks)
    rw [checkTotal_eq, if_neg hticks, if_pos hrefused]
    rfl

theorem nextAlignedReal?_eq_none_iff (t : Instant) {period : Binary64} (hs : period.LastsPicos s)
    (hk : Doublings s k) : t.nextAlignedReal? period = none ↔ t.Refused s k := by
  rw [nextAlignedReal?_eq t hs hk]
  split
  · next hrefused => exact iff_of_true rfl hrefused
  · next hnot => exact iff_of_false (Option.some_ne_none _) hnot

theorem fitsWord_multipleAfter {t : Instant} {d : Duration} (hpositive : d.IsPositive) :
    FitsWord (t.multipleAfter d) := by
  have hchecked : some (t.multipleAfter d) = checkTotal (t.multipleAfter d) :=
    (nextMultiple?_eq hpositive).symm.trans
      (nextMultiple?_of_fits t.fitsWord_total hpositive.total_pos)
  by_contra hover
  rw [checkTotal_eq, if_neg hover] at hchecked
  cases hchecked

theorem nextAlignedReal?_of_not_positive (t : Instant) {period : Binary64} (h : ¬ period.Positive) :
    t.nextAlignedReal? period = none := by
  have hgrid : grid? period = none := by
    unfold grid?
    split
    · next q =>
      have hq : q ≤ 0 := by
        by_contra hpositive
        exact h ⟨q, not_le.mp hpositive, rfl⟩
      rw [if_pos hq]
    · rfl
  unfold nextAlignedReal?
  rw [hgrid]
  rfl

theorem nextAlignedReal?_of_infinite (t : Instant) {period : Binary64}
    (h : period.scale (10 ^ 12) = .infinite false) :
    t.nextAlignedReal? period = none := by
  have hgrid : grid? period = none := by
    have hpicos : period.scale 1000000000000 = .infinite false := by
      rw [← h]
      norm_num
    unfold grid?
    split
    · next q =>
      rw [hpicos]
      exact ite_self none
    · rfl
  unfold nextAlignedReal?
  rw [hgrid]
  rfl

end Instant
end Timekeeping
