import Timekeeping.Proofs.Number.Rounding
import Timekeeping.Proofs.Text.Endings

/-!
Decimal numerals without a sign or an exponent. The number read from one is what it says, rounded once,
however many digits it has: where the reader cuts its computation short, no other number is possible.
-/
namespace Timekeeping.Binary64

open Text

/-- A numeral and the number that it says: digits, with a point before, among or after them. -/
inductive Numeral : List Char → Rat → Prop
  | whole {digits : List Char} (hne : digits ≠ []) (hdigits : Digits digits) :
    Numeral digits (ofDigits digits)
  | point {whole fraction : List Char} (hne : ¬ (whole = [] ∧ fraction = [])) (hwhole : Digits whole)
    (hfraction : Digits fraction) : Numeral (whole ++ '.' :: fraction)
      (ofDigits whole + ofDigits fraction / 10 ^ fraction.length)

variable {cs : List Char} {q : Rat} {x : Binary64} {mantissa : Nat} {exponent : Int}

/-- A number is at least the power of ten with one digit fewer, and less than that with one more. -/
theorem toDigits_bounds (h : mantissa ≠ 0) :
    (10 : Rat) ^ (((Nat.toDigits 10 mantissa).length : Int) - 1) ≤ mantissa ∧
      (mantissa : Rat) < 10 ^ ((Nat.toDigits 10 mantissa).length : Int) := by
  have hpos := Nat.length_toDigits_pos (b := 10) (n := mantissa)
  have hhigh : mantissa < 10 ^ (Nat.toDigits 10 mantissa).length :=
    (Nat.length_toDigits_le_iff (by decide) hpos).mp le_rfl
  have hlow : 10 ^ ((Nat.toDigits 10 mantissa).length - 1) ≤ mantissa := by
    by_contra hlt
    by_cases hone : (Nat.toDigits 10 mantissa).length = 1
    · rw [hone] at hlt
      omega
    · have := (Nat.length_toDigits_le_iff (by decide) (by omega)).mpr (not_le.mp hlt)
      omega
  generalize (Nat.toDigits 10 mantissa).length = digits at *
  obtain ⟨k, rfl⟩ := Nat.exists_eq_succ_of_ne_zero hpos.ne'
  constructor
  · rw [Nat.cast_succ, add_sub_cancel_right, zpow_natCast]
    exact_mod_cast hlow
  · rw [zpow_natCast]
    exact_mod_cast hhigh

/-- Four hundred places of decimals go beyond the bounds of the format on both sides. -/
theorem two_zpow_lt_ten_zpow : (2 : Rat) ^ (1075 : Int) < 10 ^ (400 : Int) := by
  have h : 2 ^ 1075 < 10 ^ 400 := by decide +kernel
  exact_mod_cast h

/-- The number is rounded once. It is not computed where it is so large or so small that it cannot but
be infinite or zero. -/
theorem ofDecimal_eq (mantissa : Nat) (exponent : Int) :
    ofDecimal mantissa exponent = round (mantissa * 10 ^ exponent) := by
  unfold ofDecimal
  dsimp only
  split
  · next hzero =>
    subst hzero
    simp [round]
  · next hne =>
    obtain ⟨hlow, hhigh⟩ := toDigits_bounds hne
    have hpower : (0 : Rat) < 10 ^ exponent := by positivity
    generalize ((Nat.toDigits 10 mantissa).length : Int) = digits at *
    split_ifs with hlarge hsmall hsign
    · symm
      apply round_eq_infinite
      calc (2 : Rat) ^ (1025 : Int) ≤ 2 ^ (1075 : Int) :=
            zpow_le_zpow_right₀ (by norm_num) (by decide)
        _ ≤ 10 ^ (400 : Int) := two_zpow_lt_ten_zpow.le
        _ ≤ 10 ^ (digits - 1 + exponent) := zpow_le_zpow_right₀ (by norm_num) (by omega)
        _ = 10 ^ (digits - 1) * 10 ^ exponent := zpow_add₀ (by norm_num) _ _
        _ ≤ mantissa * 10 ^ exponent := by gcongr
    · symm
      have hmantissa : (0 : Rat) < mantissa := by exact_mod_cast Nat.pos_of_ne_zero hne
      apply round_eq_zero (by positivity)
      calc (mantissa : Rat) * 10 ^ exponent < 10 ^ digits * 10 ^ exponent := by gcongr
        _ = 10 ^ (digits + exponent) := (zpow_add₀ (by norm_num) _ _).symm
        _ ≤ 10 ^ (-400 : Int) := zpow_le_zpow_right₀ (by norm_num) (by omega)
        _ < 2 ^ (-1075 : Int) := by
          rw [zpow_neg, zpow_neg]
          exact inv_strictAnti₀ (by positivity) two_zpow_lt_ten_zpow
    · obtain ⟨n, rfl⟩ := Int.eq_ofNat_of_zero_le hsign
      congr 1
      simp
    · obtain ⟨n, hn⟩ := Int.eq_ofNat_of_zero_le (a := -exponent) (by omega)
      obtain rfl : exponent = -n := by omega
      congr 1
      simp [Rat.mkRat_eq_div, div_eq_mul_inv]

theorem Numeral.ne_nil (h : Numeral cs q) : cs ≠ [] := by
  cases h with
  | whole hne => exact hne
  | point => simp

theorem Numeral.figures (h : Numeral cs q) : ∀ c ∈ cs, IsFigure c := by
  cases h with
  | whole hne hdigits => exact fun c hc => .inl (hdigits c hc)
  | point hne hwhole hfraction =>
    intro c hc
    rcases List.mem_append.mp hc with hc | hc
    · exact .inl (hwhole c hc)
    · rcases List.mem_cons.mp hc with rfl | hc
      · exact .inr rfl
      · exact .inl (hfraction c hc)

theorem Numeral.nonneg (h : Numeral cs q) : 0 ≤ q := by
  cases h <;> positivity

/-- A text is a numeral for one number at most: the digits up to the point and those after it say it. -/
theorem Numeral.eq_value (h : Numeral cs q) :
    q = ofDigits (cs.takeWhile isDigit) +
      ofDigits (cs.dropWhile isDigit).tail / 10 ^ (cs.dropWhile isDigit).tail.length := by
  cases h with
  | whole hne hdigits =>
    rw [List.takeWhile_eq_self_iff.mpr hdigits, List.dropWhile_eq_nil_iff.mpr hdigits]
    simp [ofDigits]
  | point hne hwhole hfraction =>
    rw [List.takeWhile_append_of_pos hwhole, List.dropWhile_append_of_pos hwhole,
      List.takeWhile_cons_of_neg (by decide), List.dropWhile_cons_of_neg (by decide), List.append_nil,
      List.tail_cons]

theorem read?_of_figures (hne : cs ≠ []) (hcs : ∀ c ∈ cs, IsFigure c) :
    read? cs = readUnsigned? cs := by
  obtain ⟨d, ds, rfl⟩ := List.exists_cons_of_ne_nil hne
  exact read?_cons (hcs d List.mem_cons_self) ds

theorem readUnsigned?_digits {digits : List Char} (hne : digits ≠ []) (hdigits : Digits digits) :
    readUnsigned? digits = some (round (ofDigits digits)) := by
  have hread : readUnsigned? (digits ++ []) = _ := readUnsigned?_append hdigits (by simp)
  rw [List.append_nil, if_neg hne, finish?, ofDecimal_eq] at hread
  simpa using hread

theorem readUnsigned?_point {whole fraction : List Char} (hne : ¬ (whole = [] ∧ fraction = []))
    (hwhole : Digits whole) (hfraction : Digits fraction) :
    readUnsigned? (whole ++ '.' :: fraction) =
      some (round (ofDigits whole + ofDigits fraction / 10 ^ fraction.length)) := by
  have htake : fraction.takeWhile isDigit = fraction := List.takeWhile_eq_self_iff.mpr hfraction
  have hdrop : fraction.dropWhile isDigit = [] := List.dropWhile_eq_nil_iff.mpr hfraction
  have hvalue : ((ofDigits (whole ++ fraction) : Nat) : Rat) * 10 ^ (-(fraction.length : Int)) =
      ofDigits whole + ofDigits fraction / 10 ^ fraction.length := by
    rw [ofDigits_append, zpow_neg, zpow_natCast]
    push_cast
    field_simp
  rw [readUnsigned?_append_point hwhole, htake, hdrop, if_neg hne, finish?, ofDecimal_eq, hvalue]

theorem Numeral.read?_eq (h : Numeral cs q) : read? cs = some (round q) := by
  rw [read?_of_figures h.ne_nil h.figures]
  cases h with
  | whole hne hdigits => exact readUnsigned?_digits hne hdigits
  | point hne hwhole hfraction => exact readUnsigned?_point hne hwhole hfraction

theorem exists_numeral_of_read? (hcs : ∀ c ∈ cs, IsFigure c) (h : read? cs = some x) :
    ∃ q, Numeral cs q ∧ x = round q := by
  suffices hnumeral : ∃ q, Numeral cs q by
    obtain ⟨q, hq⟩ := hnumeral
    exact ⟨q, hq, Option.some.inj (h.symm.trans hq.read?_eq)⟩
  have hne : cs ≠ [] := by
    rintro rfl
    cases h
  rw [read?_of_figures hne hcs] at h
  obtain ⟨whole, hwhole, ⟨r, rfl⟩ | ⟨rest, rfl, hrest⟩⟩ := exists_whole_append cs
  · rw [readUnsigned?_append_point hwhole] at h
    split at h
    · cases h
    · next hdigits =>
      have hsplit := List.takeWhile_append_dropWhile (p := isDigit) (l := r)
      have hhead := List.head?_dropWhile_not isDigit r
      cases hdrop : r.dropWhile isDigit with
      | nil =>
        rw [hdrop, List.append_nil] at hsplit
        rw [hsplit] at hdigits
        exact ⟨_, .point hdigits hwhole (List.takeWhile_eq_self_iff.mp hsplit)⟩
      | cons c cs =>
        -- A second point is no exponent.
        rw [hdrop] at h hhead
        have hc : IsFigure c := hcs c (by rw [← hsplit, hdrop]; simp)
        obtain rfl : c = '.' := hc.resolve_left (by simpa using hhead)
        cases h
  · cases rest with
    | nil =>
      rw [List.append_nil] at hne ⊢
      exact ⟨_, .whole hne hwhole⟩
    | cons c rest =>
      have hc : IsFigure c := hcs c (by simp)
      obtain ⟨hdigit, hpoint⟩ := hrest c rfl
      exact absurd hc (by simp [IsFigure, hdigit, hpoint])

end Timekeeping.Binary64
