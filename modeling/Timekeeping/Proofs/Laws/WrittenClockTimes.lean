import Timekeeping.Proofs.Laws.Resolvability
import Timekeeping.Proofs.Laws.TimingTexts
import Timekeeping.Proofs.Text.Bytes

/-!
Which times of day texts stand for. They are written with the hours of a whole day, or with the hours
from one to twelve and the half of the day, which begins with its twelve. What is read is a time that a
clock can show, so that no timing from a text is at fault for its hour or its minute.
-/
namespace Timekeeping.Timing

open Text

/-- Two digits of a minute. -/
structure MinuteText (cs : List Char) (minute : Nat) : Prop where
  length_eq : cs.length = 2
  digits : Digits cs
  value_eq : ofDigits cs = minute
  le : minute ≤ 59

/-- One or two digits of an hour. -/
structure HourText (cs : List Char) (hour : Nat) : Prop where
  length : cs.length = 1 ∨ cs.length = 2
  digits : Digits cs
  value_eq : ofDigits cs = hour

/-- A minute behind a colon, or nothing for the full hour. -/
inductive MinuteTail : List Char → Nat → Prop
  | full : MinuteTail [] 0
  | shown {cs : List Char} {minute : Nat} (h : MinuteText cs minute) : MinuteTail (':' :: cs) minute

/-- The text shows an hour of the day and a minute. -/
inductive Shows : List Char → Nat → Nat → Prop
  | whole {front back : List Char} {hour minute : Nat} (hhour : HourText front hour) (hle : hour ≤ 23)
    (hminute : MinuteText back minute) : Shows (front ++ ':' :: back) hour minute
  | half {front tail gap : List Char} {hour minute : Nat} {afternoon : Bool}
    (hhour : HourText front hour) (hpos : 1 ≤ hour) (hle : hour ≤ 12) (htail : MinuteTail tail minute)
    (hgap : Blanks gap) : Shows (front ++ tail ++ gap ++ [halfLetter afternoon, 'm'])
      (hour % 12 + if afternoon then 12 else 0) minute

variable {cs hour tail : List Char} {afternoon : Bool} {n m : Nat}

theorem isHour_iff : isHour cs ↔ (cs.length = 1 ∨ cs.length = 2) ∧ Digits cs := by
  simp [isHour, Digits]

theorem isMinute_iff : isMinute cs ↔ cs.length = 2 ∧ Digits cs := by
  simp [isMinute, Digits]

theorem asciiKind_isDigit : AsciiKind isDigit := by
  intro c hc
  rw [isDigit_iff] at hc
  omega

/-- Digits can be told, and counted, by their bytes. -/
theorem isHour_iff_bytes : isHour cs ↔
    ((bytes cs).length = 1 ∨ (bytes cs).length = 2) ∧ ∀ b ∈ bytes cs, onByte isDigit b := by
  rw [isHour_iff, all_onByte_iff asciiKind_isDigit]
  exact and_congr_left fun h => by rw [length_bytes_of_forall asciiKind_isDigit h]

theorem isMinute_iff_bytes :
    isMinute cs ↔ (bytes cs).length = 2 ∧ ∀ b ∈ bytes cs, onByte isDigit b := by
  rw [isMinute_iff, all_onByte_iff asciiKind_isDigit]
  exact and_congr_left fun h => by rw [length_bytes_of_forall asciiKind_isDigit h]

theorem dropSuffix?_append (front suffix : List Char) :
    dropSuffix? suffix (front ++ suffix) = some front := by
  simp [dropSuffix?]

/-- A text that does not end in the last letter of a half of the day names none. -/
theorem splitMeridiem_of_endsIn {p : Char → Prop} (h : EndsIn p cs) (hm : ¬ p 'm') :
    splitMeridiem cs = (cs, none) := by
  have hnone : ∀ letter, dropSuffix? [letter, 'm'] cs = none := by
    intro letter
    unfold dropSuffix?
    rw [if_neg]
    rintro ⟨front, rfl⟩
    have hlast : EndsIn (· = 'm') [letter, 'm'] := ⟨'m', rfl, rfl⟩
    have hends := hlast.append front
    obtain ⟨c, hc, rfl⟩ := h.exists_both hends
    exact hm hc
  unfold splitMeridiem
  rw [hnone, hnone]

theorem splitMeridiem_append (front : List Char) (afternoon : Bool) :
    splitMeridiem (front ++ [halfLetter afternoon, 'm']) = (trimEnd front, some afternoon) := by
  unfold splitMeridiem
  cases afternoon with
  | false =>
    have hsuffix : dropSuffix? ['a', 'm'] (front ++ [halfLetter false, 'm']) = some front :=
      dropSuffix?_append front _
    rw [hsuffix]
  | true =>
    have hother : dropSuffix? ['a', 'm'] (front ++ [halfLetter true, 'm']) = none := by
      unfold dropSuffix?
      rw [if_neg]
      rintro ⟨other, heq⟩
      exact absurd (List.append_inj' heq rfl).2 (by decide)
    have hsuffix : dropSuffix? ['p', 'm'] (front ++ [halfLetter true, 'm']) = some front :=
      dropSuffix?_append front _
    rw [hother, hsuffix]

theorem ne_colon_of_digits (h : Digits cs) : ∀ c ∈ cs, decide (c ≠ ':') := by
  intro c hc
  rw [decide_eq_true_iff]
  rintro rfl
  exact h.not_mem (by decide) hc

theorem splitClock?_colon (hhour : Digits hour) (minute : List Char) (halved : Bool) :
    splitClock? (hour ++ ':' :: minute) halved = some (hour, minute) := by
  unfold splitClock?
  rw [List.takeWhile_append_of_pos (ne_colon_of_digits hhour),
    List.dropWhile_append_of_pos (ne_colon_of_digits hhour)]
  simp

theorem splitClock?_hour (hhour : Digits hour) : splitClock? hour true = some (hour, ['0', '0']) := by
  unfold splitClock?
  rw [List.dropWhile_eq_nil_iff.mpr (ne_colon_of_digits hhour), if_pos rfl]

theorem hourOfDay?_none_iff {h : Nat} : hourOfDay? n none = some h ↔ n ≤ 23 ∧ n = h := by
  simp [hourOfDay?]

theorem hourOfDay?_some_iff {h : Nat} : hourOfDay? n (some afternoon) = some h ↔
    1 ≤ n ∧ n ≤ 12 ∧ (n % 12 + if afternoon then 12 else 0) = h := by
  simp [hourOfDay?, Nat.one_le_iff_ne_zero, and_assoc]

theorem MinuteTail.le (h : MinuteTail tail m) : m ≤ 59 := by
  cases h with
  | full => decide
  | shown h => exact h.le

theorem MinuteTail.not_isBlank (h : MinuteTail tail m) : ∀ c ∈ tail, ¬ isBlank c := by
  cases h with
  | full => simp
  | shown h =>
    exact List.forall_mem_cons.mpr ⟨by decide, h.digits.not_isBlank⟩

/-- The minute of a full hour is read as two zeros. -/
theorem MinuteTail.exists_splitClock?_eq (h : MinuteTail tail m) (hhour : Digits hour) :
    ∃ digits, splitClock? (hour ++ tail) true = some (hour, digits) ∧ MinuteText digits m := by
  cases h with
  | full =>
    have hzero : isDigit '0' := by decide
    have hzeros : Digits ['0', '0'] := by simp [Digits, hzero]
    exact ⟨['0', '0'], by rw [List.append_nil, splitClock?_hour hhour], rfl, hzeros, rfl, by decide⟩
  | shown h => exact ⟨_, splitClock?_colon hhour _ true, h⟩

theorem Shows.le (h : Shows cs n m) : n ≤ 23 ∧ m ≤ 59 := by
  cases h with
  | whole hhour hle hminute => exact ⟨hle, hminute.le⟩
  | @half _ _ _ hour _ afternoon hhour hpos hle htail hgap =>
    have hmod := Nat.mod_lt hour (show 12 > 0 by decide)
    exact ⟨by split <;> omega, htail.le⟩

theorem exists_shows_of_readClock? {time : UInt8 × UInt8} (h : readClock? cs = some time) :
    ∃ n m, Shows cs n m ∧ time = (UInt8.ofNat n, UInt8.ofNat m) := by
  obtain ⟨body, meridiem, hour, minute, value, hhalf, hparts, hhour, hminute, hvalue, hle, htime⟩ :=
    exists_clockParts h
  obtain ⟨hhourLength, hhourDigits⟩ := isHour_iff.mp hhour
  obtain ⟨hminuteLength, hminuteDigits⟩ := isMinute_iff.mp hminute
  have hhourText : HourText hour (ofDigits hour) := ⟨hhourLength, hhourDigits, rfl⟩
  have hminuteText : MinuteText minute (ofDigits minute) :=
    ⟨hminuteLength, hminuteDigits, rfl, hle⟩
  refine ⟨value, ofDigits minute, ?_, htime⟩
  rcases splitMeridiem_spec hhalf with ⟨rfl, rfl⟩ | ⟨gap, afternoon, hgap, rfl, rfl⟩
  · obtain ⟨hday, rfl⟩ := hourOfDay?_none_iff.mp hvalue
    rcases splitClock?_spec hparts with rfl | ⟨-, -, hhalved⟩
    · exact .whole hhourText hday hminuteText
    · cases hhalved
  · obtain ⟨hpos, htwelve, rfl⟩ := hourOfDay?_some_iff.mp hvalue
    rcases splitClock?_spec hparts with rfl | ⟨rfl, rfl, -⟩
    · exact .half hhourText hpos htwelve (.shown hminuteText) hgap
    · have hshows : Shows (body ++ [] ++ gap ++ [halfLetter afternoon, 'm']) _ 0 :=
        .half hhourText hpos htwelve .full hgap
      rwa [List.append_nil] at hshows

theorem Shows.readClock?_eq (h : Shows cs n m) :
    readClock? cs = some (UInt8.ofNat n, UInt8.ofNat m) := by
  cases h with
  | @whole front back _ _ hhour hle hminute =>
    have hback : EndsIn (isDigit ·) back := by
      refine endsIn_of_forall ?_ hminute.digits
      rintro rfl
      cases hminute.length_eq
    have hends := (hback.append [':']).append front
    apply ClockParts.readClock?_eq
    exact {
      body := _, meridiem := none, hour := front, minute := back, value := n
      half_eq := splitMeridiem_of_endsIn hends (by decide)
      parts_eq := splitClock?_colon hhour.digits back false
      isHour := isHour_iff.mpr ⟨hhour.length, hhour.digits⟩
      isMinute := isMinute_iff.mpr ⟨hminute.length_eq, hminute.digits⟩
      value_eq := hourOfDay?_none_iff.mpr ⟨by rwa [hhour.value_eq], hhour.value_eq⟩
      minute_le := by rw [hminute.value_eq]; exact hminute.le
      time_eq := by rw [hminute.value_eq] }
  | @half front tail gap hour _ afternoon hhour hpos hle htail hgap =>
    obtain ⟨digits, hsplit, hminute⟩ := htail.exists_splitClock?_eq hhour.digits
    have hbody : trimEnd (front ++ tail ++ gap) = front ++ tail := by
      rw [trimEnd_append _ hgap]
      exact trimEnd_of_forall
        (List.forall_mem_append.mpr ⟨hhour.digits.not_isBlank, htail.not_isBlank⟩)
    apply ClockParts.readClock?_eq
    exact {
      body := front ++ tail, meridiem := some afternoon, hour := front, minute := digits
      value := hour % 12 + if afternoon then 12 else 0
      half_eq := by rw [splitMeridiem_append, hbody]
      parts_eq := hsplit
      isHour := isHour_iff.mpr ⟨hhour.length, hhour.digits⟩
      isMinute := isMinute_iff.mpr ⟨hminute.length_eq, hminute.digits⟩
      value_eq := by rw [hhour.value_eq]; exact hourOfDay?_some_iff.mpr ⟨hpos, hle, rfl⟩
      minute_le := by rw [hminute.value_eq]; exact hminute.le
      time_eq := by rw [hminute.value_eq] }

theorem readClock?_eq_some_iff {hour minute : UInt8} :
    readClock? cs = some (hour, minute) ↔ Shows cs hour.toNat minute.toNat := by
  constructor
  · intro h
    obtain ⟨n, m, hshows, htime⟩ := exists_shows_of_readClock? h
    obtain ⟨rfl, rfl⟩ := Prod.mk.inj htime
    obtain ⟨hn, hm⟩ := hshows.le
    rwa [UInt8.toNat_ofNat_of_lt' (hn.trans_lt (by decide)),
      UInt8.toNat_ofNat_of_lt' (hm.trans_lt (by decide))]
  · intro h
    rw [h.readClock?_eq, UInt8.ofNat_toNat, UInt8.ofNat_toNat]

/-- Only what is written as a clock time is read as one. -/
theorem readClock?_of_read {input : String} {hour minute : UInt8}
    (h : read input = .ok (clockTime hour minute)) :
    readClock? (plain input) = some (hour, minute) := by
  have hplain : (trim input.toList).map Char.toLower = plain input := rfl
  unfold read at h
  rw [hplain] at h
  dsimp only at h
  split at h
  · cases h
  · split at h
    · next hour' minute' hread =>
      cases h
      exact hread
    · split at h
      · unfold ofSeconds at h
        split at h <;> cases h
      · split at h <;> cases h

/-- A text is a clock time just if it shows an hour and a minute. Its digits are those bytes that are
digits. So what a text stands for is never at fault for its hour or its minute, but only where the
instant itself has no date. -/
structure ReadsClockTimes : Prop where
  read_iff {cs : List Char} {hour minute : UInt8} :
    readClock? cs = some (hour, minute) ↔ Shows cs hour.toNat minute.toNat
  hour_bytes {cs : List Char} : isHour cs ↔
    ((bytes cs).length = 1 ∨ (bytes cs).length = 2) ∧ ∀ b ∈ bytes cs, onByte isDigit b
  minute_bytes {cs : List Char} : isMinute cs ↔
    (bytes cs).length = 2 ∧ ∀ b ∈ bytes cs, onByte isDigit b
  in_range {input : String} {hour minute : UInt8} :
    read input = .ok (clockTime hour minute) → hour ≤ 23 ∧ minute ≤ 59
  faults {input : String} {hour minute : UInt8} {now : Instant} {offset : Int}
    {interval : Option Duration} {fault : TimingFault} :
    read input = .ok (clockTime hour minute) →
      (clockTime hour minute).resolve now offset interval = .error (.fault fault) →
        fault = .clock hour minute .nowOutOfRange ∧ ¬ Civil.Dated now 0

theorem le_of_read {input : String} {hour minute : UInt8}
    (h : read input = .ok (clockTime hour minute)) : hour ≤ 23 ∧ minute ≤ 59 := by
  obtain ⟨hhour, hminute⟩ := (readClock?_eq_some_iff.mp (readClock?_of_read h)).le
  exact ⟨UInt8.le_iff_toNat_le.mpr hhour, UInt8.le_iff_toNat_le.mpr hminute⟩

theorem reads_clockTimes : ReadsClockTimes where
  read_iff := readClock?_eq_some_iff
  hour_bytes := isHour_iff_bytes
  minute_bytes := isMinute_iff_bytes
  in_range := le_of_read
  faults hread hresolve := by
    obtain ⟨hhour, hminute⟩ := le_of_read hread
    cases resolve_eq_fault_iff.mp hresolve with
    | hour hlarge => exact absurd hhour (UInt8.not_le.mpr hlarge)
    | minute _ hlarge => exact absurd hminute (UInt8.not_le.mpr hlarge)
    | undated _ _ hnow => exact ⟨rfl, hnow⟩

example : readClock? "12:05 am".toList = some (0, 5) := by decide

end Timekeeping.Timing
