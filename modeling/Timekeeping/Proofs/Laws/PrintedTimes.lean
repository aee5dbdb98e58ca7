import Timekeeping.Proofs.Number.Numerals
import Timekeeping.Proofs.Time.Decimals
import Timekeeping.Time.Instant

/-!
The printed form of spans and instants is exact: read as a signed decimal number it says the total in
seconds. Values are printed alike just if their totals are equal, however they are stored.
-/
namespace Timekeeping

namespace Binary64

/-- A numeral, with a minus sign before it or without, and the number that it says. -/
inductive SignedNumeral : List Char → Rat → Prop
  | plain {cs : List Char} {q : Rat} (h : Numeral cs q) : SignedNumeral cs q
  | minus {cs : List Char} {q : Rat} (h : Numeral cs q) : SignedNumeral ('-' :: cs) (-q)

variable {cs : List Char} {q r : Rat}

theorem Numeral.unique (hq : Numeral cs q) (hr : Numeral cs r) : q = r :=
  hq.eq_value.trans hr.eq_value.symm

theorem not_numeral_minus : ¬ Numeral ('-' :: cs) q := by
  intro h
  rcases h.figures '-' List.mem_cons_self with hdigit | hpoint
  · exact absurd hdigit (by decide)
  · exact absurd hpoint (by decide)

theorem SignedNumeral.unique (hq : SignedNumeral cs q) (hr : SignedNumeral cs r) : q = r := by
  cases hq with
  | plain hq =>
    cases hr with
    | plain hr => exact hq.unique hr
    | minus => exact absurd hq not_numeral_minus
  | minus hq =>
    cases hr with
    | plain hr => exact absurd hr not_numeral_minus
    | minus hr => rw [hq.unique hr]

end Binary64

namespace Ticks

open Text Binary64

/-- A text without an exponent that stands for a number, and for no other, when it is read as a signed
decimal. A point has digits on both sides, a fraction does not end in a zero, and the minus sign is for
numbers below zero. -/
structure Renders (cs : List Char) (q : Rat) : Prop where
  denotes {r : Rat} : SignedNumeral cs r ↔ r = q
  positional : ∀ c ∈ cs, isDigit c ∨ c = '.' ∨ c = '-'
  point {whole fraction : List Char} : cs = whole ++ '.' :: fraction →
    (∃ c ∈ whole.getLast?, isDigit c) ∧ ∃ c ∈ fraction.getLast?, isDigit c ∧ c ≠ '0'
  minus : '-' ∈ cs ↔ q < 0

variable {n : Int} {whole fraction : List Char}

/-- The digits say the size of the total. -/
theorem Printed.numeral (h : Printed n whole fraction) :
    Numeral (whole ++ if fraction = [] then [] else '.' :: fraction) (|(n : Rat)| / 1000000000000) := by
  rw [← h.value]
  split
  · next hnil =>
    subst hnil
    simpa [ofDigits] using Numeral.whole h.whole_ne_nil h.whole_digits
  · exact .point (by simp [h.whole_ne_nil]) h.whole_digits h.fraction_digits

theorem Printed.signedNumeral (h : Printed n whole fraction) :
    SignedNumeral (decimalDigits n) (n / 1000000000000) := by
  have hnumeral := h.numeral
  rw [h.text, List.append_assoc]
  split
  · next hneg =>
    rw [abs_of_neg (by exact_mod_cast hneg), neg_div] at hnumeral
    simpa using SignedNumeral.minus hnumeral
  · next hpos =>
    rw [abs_of_nonneg (by exact_mod_cast Int.not_lt.mp hpos)] at hnumeral
    exact .plain hnumeral

/-- No other characters are used, and the sign is used for totals below zero. -/
theorem Printed.characters (h : Printed n whole fraction) {c : Char} (hc : c ∈ decimalDigits n) :
    isDigit c ∨ c = '.' ∨ c = '-' ∧ n < 0 := by
  rw [h.text, List.append_assoc, List.mem_append, List.mem_append] at hc
  rcases hc with hsign | hwhole | hrest
  · split at hsign
    · next hneg => exact .inr (.inr ⟨List.mem_singleton.mp hsign, hneg⟩)
    · cases hsign
  · exact .inl (h.whole_digits c hwhole)
  · split at hrest
    · cases hrest
    · rcases List.mem_cons.mp hrest with rfl | hfraction
      · exact .inr (.inl rfl)
      · exact .inl (h.fraction_digits c hfraction)

/-- The text has one point at most, which parts the digits before it from those after it. -/
theorem Printed.eq_of_point (h : Printed n whole fraction) {before after : List Char}
    (hpoint : decimalDigits n = before ++ '.' :: after) :
    before = (if n < 0 then ['-'] else []) ++ whole ∧ after = fraction ∧ fraction ≠ [] := by
  have hfront : '.' ∉ (if n < 0 then ['-'] else []) ++ whole := by
    rw [List.mem_append, not_or]
    refine ⟨?_, h.whole_digits.not_mem (by decide)⟩
    split <;> decide
  rw [h.text] at hpoint
  by_cases hnil : fraction = []
  · have hmem : '.' ∈ before ++ '.' :: after := by simp
    rw [← hpoint, if_pos hnil, List.append_nil] at hmem
    exact absurd hmem hfront
  · rw [if_neg hnil] at hpoint
    have hback : '.' ∉ fraction := h.fraction_digits.not_mem (by decide)
    obtain ⟨hbefore, -, hafter⟩ := (List.append_cons_inj_of_notMem hfront hback).mp hpoint
    exact ⟨hbefore.symm, hafter.symm, hnil⟩

theorem renders_decimalDigits (n : Int) : Renders (decimalDigits n) (n / 1000000000000) := by
  obtain ⟨whole, fraction, h⟩ := exists_printed n
  refine ⟨⟨fun hr => hr.unique h.signedNumeral, fun hr => hr ▸ h.signedNumeral⟩, ?_, ?_, ?_⟩
  · intro c hc
    exact (h.characters hc).imp_right (Or.imp_right And.left)
  · intro before after hpoint
    obtain ⟨rfl, rfl, hne⟩ := h.eq_of_point hpoint
    rw [List.getLast?_append_of_ne_nil _ h.whole_ne_nil]
    constructor
    · exact ⟨_, List.getLast?_eq_some_getLast h.whole_ne_nil, h.whole_digits _ (List.getLast_mem _)⟩
    · have hlast := List.getLast?_eq_some_getLast hne
      refine ⟨_, hlast, h.fraction_digits _ (List.getLast_mem _), fun hzero => h.last ?_⟩
      rw [hlast, hzero]
  · have hsign : ((n : Rat) / 1000000000000 < 0) ↔ n < 0 := by
      rw [div_neg_iff]
      norm_num
    rw [hsign]
    constructor
    · intro hmem
      rcases h.characters hmem with hdigit | hpoint | ⟨-, hneg⟩
      · exact absurd hdigit (by decide)
      · exact absurd hpoint (by decide)
      · exact hneg
    · intro hneg
      rw [h.text, if_pos hneg]
      simp

/-- What a text stands for tells the total that was printed. -/
theorem decimalDigits_inj {m n : Int} : decimalDigits m = decimalDigits n ↔ m = n := by
  refine ⟨fun h => ?_, fun h => h ▸ rfl⟩
  have hm := (renders_decimalDigits m).denotes.mpr rfl
  rw [h] at hm
  have hvalue := (renders_decimalDigits n).denotes.mp hm
  exact_mod_cast (div_left_inj' (by norm_num)).mp hvalue

end Ticks

theorem Duration.toList_toString (d : Duration) :
    (toString d).toList = Ticks.decimalDigits d.total ++ ['s'] :=
  String.toList_ofList

theorem Instant.toList_toString (t : Instant) :
    (toString t).toList = Ticks.decimalDigits t.total :=
  String.toList_ofList

theorem prints_exactly :
    (∀ d : Duration, ∃ cs, (toString d).toList = cs ++ ['s'] ∧
      Ticks.Renders cs (d.total / 1000000000000)) ∧
    (∀ t : Instant, Ticks.Renders (toString t).toList (t.total / 1000000000000)) ∧
    (∀ a b : Duration, toString a = toString b ↔ a.total = b.total) ∧
    (∀ a b : Instant, toString a = toString b ↔ a.total = b.total) := by
  refine ⟨fun d => ?_, fun t => ?_, fun a b => ?_, fun a b => ?_⟩
  · exact ⟨_, d.toList_toString, Ticks.renders_decimalDigits d.total⟩
  · rw [t.toList_toString]
    exact Ticks.renders_decimalDigits t.total
  · rw [← String.toList_inj, a.toList_toString, b.toList_toString, List.append_left_inj,
      Ticks.decimalDigits_inj]
  · rw [← String.toList_inj, a.toList_toString, b.toList_toString, Ticks.decimalDigits_inj]

/-- A second and a half before zero is stored as half a second after two seconds before it. -/
example : toString (⟨⟨-2, 500000000000⟩⟩ : Duration) = "-1.5s" := by decide +kernel

end Timekeeping
