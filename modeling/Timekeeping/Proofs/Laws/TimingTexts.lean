import Timekeeping.Proofs.Number.Rounding
import Timekeeping.Proofs.Text.Endings

/-!
Which timing a text stands for. There are four forms in which one can be written, and no text has two
of them: digits start a clock time that goes on or ends as no number and no count of units does, a
number ends in a figure, and a count of units in a unit. So the forms can be tried in any order. A text
is refused if it has none of the forms, or that of a number which is too large or none at all.
-/
namespace Timekeeping

namespace Duration

variable {x : Binary64}

theorem ofSecondsReal?_eq_none_iff :
    ofSecondsReal? x = none ↔ ∀ q, x = .finite q → 9200000000000000000 ≤ |q| := by
  unfold ofSecondsReal?
  cases x with
  | nan => simp
  | infinite negative => simp
  | finite q =>
    have hlarge : q ≤ -9200000000000000000 ∨ 9200000000000000000 ≤ q ↔
        9200000000000000000 ≤ |q| := le_abs'.symm
    have hfraction : |(q - Binary64.truncate q) * 1000000000000| < 2 ^ (1023 : Int) := by
      have hbound : (2 : Rat) ^ (40 : Int) ≤ 2 ^ (1023 : Int) :=
        zpow_le_zpow_right₀ (by norm_num) (by decide)
      have hrest := Binary64.abs_sub_truncate_lt q
      rw [abs_mul, abs_of_pos (by norm_num : (0 : Rat) < 1000000000000)]
      calc |q - Binary64.truncate q| * 1000000000000 < 1 * 1000000000000 := by gcongr
        _ ≤ 2 ^ (40 : Int) := by norm_num
        _ ≤ 2 ^ (1023 : Int) := hbound
    obtain ⟨fraction, hround⟩ := Binary64.exists_round_eq_finite hfraction
    simp [hlarge, hround]

end Duration

namespace Timing

open Text

/-- The forms in which a timing can be written. -/
inductive Form
  | word
  | clock
  | number
  | counted
deriving DecidableEq

/-- What the text comes to if it has the form. -/
def Form.read? (cs : List Char) : Form → Option (Except TimingFault Timing)
  | word => if cs = ['n', 'o', 'w'] then some (.ok now) else none
  | clock => (readClock? cs).map fun time => .ok (clockTime time.1 time.2)
  | number => (Binary64.read? cs).map ofSeconds
  | counted => (readWords? cs).map fun delay => .ok (relative delay)

/-- All forms, in the order in which a text is tried. -/
def Form.all : List Form := [word, clock, number, counted]

theorem Form.mem_all (f : Form) : f ∈ all := by cases f <;> decide

/-- The text without blanks around it and in small letters. -/
def plain (input : String) : List Char := (trim input.toList).map Char.toLower

/-- Reads a timing by trying some forms one after another. -/
def readInOrder (order : List Form) (input : String) : Except TimingFault Timing :=
  (order.findSome? (Form.read? (plain input))).getD (.error (.unrecognized input))

/-- A text has at most one of the forms, and what it comes to does not depend on the order in which
they are tried. It is refused just if it has none of them, or if it is a number that is not finite or
from `9.2e18` on in size. Blanks around it and the case of its letters make no difference to the
timing. -/
structure Unambiguous (input : String) : Prop where
  one_form : ∀ {f g : Form}, (f.read? (plain input)).isSome → (g.read? (plain input)).isSome → f = g
  any_order : ∀ {order : List Form}, (∀ f, f ∈ order) → readInOrder order input = read input
  refused_iff : ∀ {fault}, read input = .error fault ↔
    (∀ f : Form, f.read? (plain input) = none) ∧ fault = .unrecognized input ∨
      ∃ x, Binary64.read? (plain input) = some x ∧
        (∀ q, x = .finite q → 9200000000000000000 ≤ |q|) ∧ fault = .notFinite x
  same_timing : ∀ {before cs after : List Char}, Blanks before → Blanks after →
    cs.map Char.toLower = input.toList.map Char.toLower →
    (read (String.ofList (before ++ cs ++ after))).toOption = (read input).toOption

variable {cs : List Char} {input : String} {f g : Form}

theorem tokenKind?_of_isFigure {c : Char} (h : Binary64.IsFigure c) : tokenKind? c = some .number :=
  if_pos h

theorem number_refuses_clock {time : UInt8 × UInt8} (h : readClock? cs = some time) :
    Binary64.read? cs = none := by
  obtain ⟨hour, c, rest, hstarts⟩ := exists_startsWithHour h
  have hc : ¬ isDigit c ∧ c ≠ '.' ∧ c ≠ 'e' ∧ c ≠ 'E' := by
    rcases hstarts.next with rfl | ⟨hblank | rfl | rfl, -⟩
    · decide
    · refine ⟨not_isDigit_of_isBlank hblank, ?_, ?_, ?_⟩ <;>
        · rintro rfl
          exact absurd hblank (by decide)
    · decide
    · decide
  rw [hstarts.eq]
  exact Binary64.read?_digits_append hstarts.ne_nil hstarts.digits hc.1 hc.2.1 hc.2.2 rest

theorem counted_refuses_clock {time : UInt8 × UInt8} (h : readClock? cs = some time) :
    readWords? cs = none := by
  by_contra hsome
  obtain ⟨d, hd⟩ := Option.ne_none_iff_exists'.mp hsome
  obtain ⟨hends, hkinds⟩ := endsIn_of_readWords? hd
  obtain ⟨hour, c, rest, hstarts⟩ := exists_startsWithHour h
  rcases hstarts.next with rfl | ⟨-, hm⟩
  · exact absurd (hkinds ':' (by simp [hstarts.eq])) (by decide)
  · obtain ⟨c, rfl, hblank | ⟨-, hne⟩⟩ := hm.exists_both hends
    · exact absurd hblank (by decide)
    · exact hne rfl

theorem counted_refuses_number {x : Binary64} (hlower : cs.map Char.toLower = cs)
    (h : Binary64.read? cs = some x) : readWords? cs = none := by
  by_contra hsome
  obtain ⟨d, hd⟩ := Option.ne_none_iff_exists'.mp hsome
  obtain ⟨hends, hkinds⟩ := endsIn_of_readWords? hd
  have hminus : '-' ∉ cs := fun hmem => absurd (hkinds _ hmem) (by decide)
  have hplus : '+' ∉ cs := fun hmem => absurd (hkinds _ hmem) (by decide)
  have hname : cs.map Char.toLower ∉ Binary64.names := by
    have hnames : ∀ name ∈ Binary64.names, readWords? name = none := by decide +kernel
    rw [hlower]
    exact fun hmem => hsome (hnames cs hmem)
  obtain ⟨c, hclose, hfigure⟩ :=
    hends.exists_both (Binary64.endsIn_of_read? h hminus hplus hname)
  rw [ClosesCount, tokenKind?_of_isFigure hfigure] at hclose
  simp at hclose

/-- A text that has one form has none of those which are tried later. -/
theorem pairwise_refuses (hlower : cs.map Char.toLower = cs) :
    Form.all.Pairwise fun f g => (f.read? cs).isSome → g.read? cs = none := by
  refine .cons ?word (.cons ?clock (.cons ?number (.cons (by simp) .nil)))
  case word =>
    have hnow : ∀ g ∈ [Form.clock, .number, .counted], g.read? ['n', 'o', 'w'] = none := by
      decide +kernel
    intro g hg hword
    have hcs : cs = ['n', 'o', 'w'] := by simpa [Form.read?] using hword
    rw [hcs]
    exact hnow g hg
  case clock =>
    intro g hg hclock
    obtain ⟨time, htime⟩ : ∃ time, readClock? cs = some time := by
      simpa [Form.read?, Option.isSome_iff_exists] using hclock
    obtain rfl | rfl : g = .number ∨ g = .counted := by simpa using hg
    · simp [Form.read?, number_refuses_clock htime]
    · simp [Form.read?, counted_refuses_clock htime]
  case number =>
    intro g hg hnumber
    obtain ⟨x, hx⟩ : ∃ x, Binary64.read? cs = some x := by
      simpa [Form.read?, Option.isSome_iff_exists] using hnumber
    obtain rfl : g = .counted := by simpa using hg
    simp [Form.read?, counted_refuses_number hlower hx]

/-- The text does not have both forms, unless they are the same. -/
def Excludes (cs : List Char) (f g : Form) : Prop :=
  (f.read? cs).isSome → (g.read? cs).isSome → f = g

instance (cs : List Char) : Std.Symm (Excludes cs) := ⟨fun _ _ h hg hf => (h hf hg).symm⟩

/-- No text has two forms. -/
theorem form_unique (hlower : cs.map Char.toLower = cs) (f g : Form) : Excludes cs f g := by
  have hpairs : Form.all.Pairwise (Excludes cs) :=
    (pairwise_refuses hlower).imp fun h hf hg => by simp [h hf] at hg
  exact hpairs.forall_of_forall (fun _ _ _ _ => rfl) f.mem_all g.mem_all

theorem plain_lower (input : String) : (plain input).map Char.toLower = plain input := by
  unfold plain
  rw [List.map_map]
  exact List.map_congr_left fun c _ => toLower_toLower c

theorem read_eq (input : String) : read input = readInOrder Form.all input := by
  have hplain : (trim input.toList).map Char.toLower = plain input := rfl
  unfold read readInOrder
  simp only [hplain, Form.all, List.findSome?_cons, List.findSome?_nil, Form.read?]
  by_cases hnow : plain input = ['n', 'o', 'w']
  · simp only [hnow, if_true, Option.getD_some]
  · simp only [if_neg hnow]
    cases readClock? (plain input) with
    | some time => rfl
    | none =>
      cases Binary64.read? (plain input) with
      | some x => rfl
      | none => cases readWords? (plain input) <;> rfl

/-- Whichever order the forms are tried in, the one that a text has is found. -/
theorem findSome?_read? {order : List Form} {r : Except TimingFault Timing}
    (hall : ∀ f, f ∈ order) (h : f.read? (plain input) = some r) :
    order.findSome? (Form.read? (plain input)) = some r := by
  cases hfound : order.findSome? (Form.read? (plain input)) with
  | none =>
    rw [List.findSome?_eq_none_iff.mp hfound f (hall f)] at h
    cases h
  | some r' =>
    obtain ⟨-, g, -, -, hg, -⟩ := List.findSome?_eq_some_iff.mp hfound
    obtain rfl : g = f := form_unique (plain_lower input) g f (by simp [hg]) (by simp [h])
    exact hg.symm.trans h

theorem read_eq_of_form {r : Except TimingFault Timing} (h : f.read? (plain input) = some r) :
    read input = r := by
  rw [read_eq, readInOrder, findSome?_read? Form.mem_all h, Option.getD_some]

theorem readInOrder_eq_of_none (order : List Form) (h : ∀ f : Form, f.read? (plain input) = none) :
    readInOrder order input = .error (.unrecognized input) := by
  rw [readInOrder, List.findSome?_eq_none_iff.mpr fun f _ => h f, Option.getD_none]

theorem readInOrder_eq_read {order : List Form} (hall : ∀ f, f ∈ order) (input : String) :
    readInOrder order input = read input := by
  by_cases hsome : ∃ (f : Form) (r : _), f.read? (plain input) = some r
  · obtain ⟨f, r, hr⟩ := hsome
    rw [readInOrder, findSome?_read? hall hr, Option.getD_some, read_eq_of_form hr]
  · have hnone : ∀ f : Form, f.read? (plain input) = none := by
      intro f
      by_contra hf
      obtain ⟨r, hr⟩ := Option.ne_none_iff_exists'.mp hf
      exact hsome ⟨f, r, hr⟩
    rw [readInOrder_eq_of_none order hnone, read_eq, readInOrder_eq_of_none Form.all hnone]

theorem ofSeconds_eq_error_iff {x : Binary64} {fault : TimingFault} :
    ofSeconds x = .error fault ↔
      (∀ q, x = .finite q → 9200000000000000000 ≤ |q|) ∧ fault = .notFinite x := by
  rw [← Duration.ofSecondsReal?_eq_none_iff]
  unfold ofSeconds
  cases Duration.ofSecondsReal? x <;> simp [eq_comm]

theorem read_eq_error_iff {fault : TimingFault} : read input = .error fault ↔
    (∀ f : Form, f.read? (plain input) = none) ∧ fault = .unrecognized input ∨
      ∃ x, Binary64.read? (plain input) = some x ∧
        (∀ q, x = .finite q → 9200000000000000000 ≤ |q|) ∧ fault = .notFinite x := by
  constructor
  · intro hread
    by_cases hnone : ∀ f : Form, f.read? (plain input) = none
    · rw [read_eq, readInOrder_eq_of_none _ hnone] at hread
      cases hread
      exact .inl ⟨hnone, rfl⟩
    · obtain ⟨f, hf⟩ := not_forall.mp hnone
      obtain ⟨r, hr⟩ := Option.ne_none_iff_exists'.mp hf
      obtain rfl : r = .error fault := (read_eq_of_form hr).symm.trans hread
      -- All forms but a number come to a timing.
      cases f with
      | word => simp [Form.read?] at hr
      | clock => simp [Form.read?] at hr
      | number =>
        obtain ⟨x, hx, hfault⟩ := Option.map_eq_some_iff.mp hr
        exact .inr ⟨x, hx, ofSeconds_eq_error_iff.mp hfault⟩
      | counted => simp [Form.read?] at hr
  · rintro (⟨hnone, rfl⟩ | ⟨x, hx, hfault⟩)
    · rw [read_eq, readInOrder_eq_of_none _ hnone]
    · apply read_eq_of_form (f := .number)
      rw [Form.read?, hx, Option.map_some, ofSeconds_eq_error_iff.mpr hfault]

/-- The timing does not depend on the text but for its plain form. -/
theorem toOption_read_congr {input' : String} (h : plain input = plain input') :
    (read input).toOption = (read input').toOption := by
  have hplain : ∀ input, (read input).toOption =
      (Form.all.findSome? (Form.read? (plain input))).bind Except.toOption := by
    intro input
    rw [read_eq, readInOrder]
    cases Form.all.findSome? (Form.read? (plain input)) <;> rfl
  rw [hplain, hplain, h]

theorem plain_append_append {before cs after : List Char} (hbefore : Blanks before)
    (hafter : Blanks after) (hcs : cs.map Char.toLower = input.toList.map Char.toLower) :
    plain (String.ofList (before ++ cs ++ after)) = plain input := by
  unfold plain
  rw [String.toList_ofList, ← trim_map_toLower, ← trim_map_toLower, List.map_append,
    List.map_append, trim_append_append _ hbefore.map_toLower hafter.map_toLower, hcs]

/-- Every text stands for one timing at most, and is refused only if it stands for none. -/
theorem read_unambiguous (input : String) : Unambiguous input where
  one_form := form_unique (plain_lower input) _ _
  any_order hall := readInOrder_eq_read hall input
  refused_iff := read_eq_error_iff
  same_timing hbefore hafter hcs := toOption_read_congr (plain_append_append hbefore hafter hcs)

end Timing
end Timekeeping
