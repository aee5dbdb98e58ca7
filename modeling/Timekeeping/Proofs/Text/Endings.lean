import Timekeeping.Proofs.Text.Digits
import Timekeeping.Timing.Reading
import Mathlib.Data.List.Basic

/-!
What the forms of a timing look like: where a numeral, a clock time and a row of counted units end,
and which characters they are made of.
-/
namespace Timekeeping

namespace Text

/-- The text has a last character, and that is of a kind. -/
def EndsIn (p : Char → Prop) (cs : List Char) : Prop := ∃ c ∈ cs.getLast?, p c

variable {p q : Char → Prop} {cs : List Char}

theorem endsIn_of_forall (hne : cs ≠ []) (h : ∀ c ∈ cs, p c) : EndsIn p cs :=
  ⟨cs.getLast hne, List.getLast?_eq_some_getLast hne, h _ (List.getLast_mem hne)⟩

theorem EndsIn.append (h : EndsIn p cs) (front : List Char) : EndsIn p (front ++ cs) := by
  obtain ⟨c, hc, hp⟩ := h
  exact ⟨c, List.mem_getLast?_append_of_mem_getLast? hc, hp⟩

theorem EndsIn.mono (h : EndsIn p cs) (hpq : ∀ c, p c → q c) : EndsIn q cs := by
  obtain ⟨c, hc, hp⟩ := h
  exact ⟨c, hc, hpq c hp⟩

/-- A text ends in one way only. -/
theorem EndsIn.exists_both (hp : EndsIn p cs) (hq : EndsIn q cs) : ∃ c, p c ∧ q c := by
  obtain ⟨c, hc, hpc⟩ := hp
  obtain ⟨d, hd, hqd⟩ := hq
  obtain rfl : c = d := Option.some.inj (hc.symm.trans hd)
  exact ⟨c, hpc, hqd⟩

theorem eq_append_of_dropSuffix? {suffix body : List Char}
    (h : dropSuffix? suffix cs = some body) : cs = body ++ suffix := by
  unfold dropSuffix? at h
  split at h
  · next hsuffix =>
    obtain ⟨front, rfl⟩ := hsuffix
    cases h
    simp
  · cases h

end Text

open Text

namespace Binary64

variable {cs whole rest : List Char} {c : Char} {x : Binary64} {mantissa : Nat} {places e : Int}

/-- A digit or the point of a numeral. -/
def IsFigure (c : Char) : Prop := isDigit c ∨ c = '.'

instance (c : Char) : Decidable (IsFigure c) := inferInstanceAs (Decidable (_ ∨ _))

/-- The number whose digits have been read, by the text behind them. -/
def finish? (mantissa : Nat) (places : Int) : List Char → Option Binary64
  | [] => some (ofDecimal mantissa (-places))
  | c :: r =>
    if c = 'e' ∨ c = 'E' then (readExponent? r).map fun e => ofDecimal mantissa (e - places) else none

theorem readUnsigned?_append_point (hwhole : ∀ d ∈ whole, isDigit d) (r : List Char) :
    readUnsigned? (whole ++ '.' :: r) =
      if whole = [] ∧ r.takeWhile isDigit = [] then none
      else finish? (ofDigits (whole ++ r.takeWhile isDigit)) (r.takeWhile isDigit).length
        (r.dropWhile isDigit) := by
  have hpoint : isDigit '.' = false := by decide
  unfold readUnsigned?
  rw [List.takeWhile_append_of_pos hwhole, List.dropWhile_append_of_pos hwhole,
    List.takeWhile_cons_of_neg (by simp [hpoint]), List.dropWhile_cons_of_neg (by simp [hpoint]),
    List.append_nil]
  simp only [Bool.and_eq_true, List.isEmpty_iff]
  rfl

theorem readUnsigned?_append (hwhole : ∀ d ∈ whole, isDigit d)
    (hrest : ∀ c ∈ rest.head?, ¬ isDigit c ∧ c ≠ '.') :
    readUnsigned? (whole ++ rest) = if whole = [] then none else finish? (ofDigits whole) 0 rest := by
  have htake : rest.takeWhile isDigit = [] ∧ rest.dropWhile isDigit = rest := by
    cases rest with
    | nil => exact ⟨rfl, rfl⟩
    | cons c r =>
      have hc := (hrest c rfl).1
      exact ⟨List.takeWhile_cons_of_neg hc, List.dropWhile_cons_of_neg hc⟩
  unfold readUnsigned?
  rw [List.takeWhile_append_of_pos hwhole, List.dropWhile_append_of_pos hwhole, htake.1, htake.2,
    List.append_nil]
  dsimp only
  split
  · exact absurd rfl (hrest '.' rfl).2
  · simp only [List.isEmpty_nil, Bool.and_true, List.isEmpty_iff, List.append_nil]
    rfl

/-- Every text starts with digits, and then has a point or something else. -/
theorem exists_whole_append (cs : List Char) : ∃ whole, (∀ d ∈ whole, isDigit d) ∧
    ((∃ r, cs = whole ++ '.' :: r) ∨
      ∃ rest, cs = whole ++ rest ∧ ∀ c ∈ rest.head?, ¬ isDigit c ∧ c ≠ '.') := by
  refine ⟨cs.takeWhile isDigit, fun d hd => List.mem_takeWhile_imp hd, ?_⟩
  have hsplit : cs = cs.takeWhile isDigit ++ cs.dropWhile isDigit :=
    List.takeWhile_append_dropWhile.symm
  have hhead := List.head?_dropWhile_not isDigit cs
  cases hrest : cs.dropWhile isDigit with
  | nil => exact .inr ⟨[], by rw [← hrest]; exact hsplit, by simp⟩
  | cons c r =>
    rw [hrest] at hsplit hhead
    by_cases hc : c = '.'
    · subst hc
      exact .inl ⟨r, hsplit⟩
    · refine .inr ⟨c :: r, hsplit, ?_⟩
      rintro d ⟨⟩
      exact ⟨by simpa using hhead, hc⟩

theorem endsIn_of_readExponent? (h : readExponent? cs = some e) : EndsIn (isDigit ·) cs := by
  have hdigits : ∀ {digits : List Char} {size : Int},
      (if digits.isEmpty || !digits.all isDigit then none else some size) = some e →
        EndsIn (isDigit ·) digits := by
    intro digits size h
    split at h
    · cases h
    · next hguard =>
      simp only [Bool.or_eq_true, not_or, List.isEmpty_iff, Bool.not_eq_true', Bool.not_eq_false,
        List.all_eq_true] at hguard
      exact endsIn_of_forall hguard.1 hguard.2
  unfold readExponent? at h
  dsimp only at h
  split at h
  · exact (hdigits h).append ['-']
  · exact (hdigits h).append ['+']
  · exact hdigits h

theorem endsIn_of_finish? {front : List Char} (hne : front ≠ []) (hfront : ∀ c ∈ front, IsFigure c)
    (h : finish? mantissa places rest = some x) : EndsIn IsFigure (front ++ rest) := by
  cases rest with
  | nil =>
    rw [List.append_nil]
    exact endsIn_of_forall hne hfront
  | cons c r =>
    unfold finish? at h
    dsimp only at h
    split at h
    · obtain ⟨e, he, -⟩ := Option.map_eq_some_iff.mp h
      have hr : EndsIn IsFigure r := (endsIn_of_readExponent? he).mono fun c hc => .inl hc
      exact (hr.append [c]).append front
    · cases h

theorem endsIn_of_readUnsigned? (h : readUnsigned? cs = some x) : EndsIn IsFigure cs := by
  obtain ⟨whole, hwhole, ⟨r, rfl⟩ | ⟨rest, rfl, hrest⟩⟩ := exists_whole_append cs
  · rw [readUnsigned?_append_point hwhole] at h
    split at h
    · cases h
    · have hfront : ∀ c ∈ whole ++ '.' :: r.takeWhile isDigit, IsFigure c := by
        intro c hc
        rcases List.mem_append.mp hc with hc | hc
        · exact .inl (hwhole c hc)
        · rcases List.mem_cons.mp hc with rfl | hc
          · exact .inr rfl
          · exact .inl (List.mem_takeWhile_imp hc)
      have hends := endsIn_of_finish? (by simp) hfront h
      rwa [List.append_assoc, List.cons_append, List.takeWhile_append_dropWhile] at hends
  · rw [readUnsigned?_append hwhole hrest] at h
    split at h
    · cases h
    · next hne => exact endsIn_of_finish? hne (fun c hc => .inl (hwhole c hc)) h

/-- The words for infinity and for no number. -/
def names : List (List Char) :=
  [['i', 'n', 'f'], ['i', 'n', 'f', 'i', 'n', 'i', 't', 'y'], ['n', 'a', 'n']]

theorem readSize?_eq (cs : List Char) (hname : cs.map Char.toLower ∉ names) :
    readSize? cs = readUnsigned? cs := by
  simp only [names, List.mem_cons, List.not_mem_nil, or_false, not_or] at hname
  obtain ⟨hinf, hinfinity, hnan⟩ := hname
  unfold readSize?
  dsimp only
  rw [if_neg (by simp [hinf, hinfinity]), if_neg hnan]

theorem endsIn_of_readSize? (h : readSize? cs = some x) (hname : cs.map Char.toLower ∉ names) :
    EndsIn IsFigure cs := by
  rw [readSize?_eq cs hname] at h
  exact endsIn_of_readUnsigned? h

/-- A number without a sign is a word or ends in a figure. -/
theorem endsIn_of_read? (h : read? cs = some x) (hminus : '-' ∉ cs) (hplus : '+' ∉ cs)
    (hname : cs.map Char.toLower ∉ names) : EndsIn IsFigure cs := by
  unfold read? at h
  split at h
  · exact absurd List.mem_cons_self hminus
  · exact absurd List.mem_cons_self hplus
  · exact endsIn_of_readSize? h hname

/-- What starts with a figure has no sign and is no word. -/
theorem read?_cons {d : Char} (hd : IsFigure d) (cs : List Char) :
    read? (d :: cs) = readUnsigned? (d :: cs) := by
  have hname : (d :: cs).map Char.toLower ∉ names := by
    have hlower : d.toLower = d := by
      rcases hd with hd | rfl
      · exact toLower_of_isDigit hd
      · rfl
    rw [List.map_cons, hlower]
    intro hmem
    obtain rfl | rfl : d = 'i' ∨ d = 'n' := by
      simp only [names, List.mem_cons, List.cons.injEq, List.not_mem_nil, or_false] at hmem
      tauto
    · exact absurd hd (by decide)
    · exact absurd hd (by decide)
  rw [← readSize?_eq _ hname]
  unfold read?
  split
  · next h =>
    cases h
    exact absurd hd (by decide)
  · next h =>
    cases h
    exact absurd hd (by decide)
  · rfl

/-- No number has digits before anything but a point and an exponent. -/
theorem read?_digits_append (hne : whole ≠ []) (hwhole : ∀ d ∈ whole, isDigit d)
    (hdigit : ¬ isDigit c) (hpoint : c ≠ '.') (hexponent : c ≠ 'e' ∧ c ≠ 'E') (r : List Char) :
    read? (whole ++ c :: r) = none := by
  have hrest : ∀ d ∈ (c :: r).head?, ¬ isDigit d ∧ d ≠ '.' := by
    rintro _ ⟨⟩
    exact ⟨hdigit, hpoint⟩
  obtain ⟨d, ds, rfl⟩ := List.exists_cons_of_ne_nil hne
  rw [List.cons_append, read?_cons (.inl (hwhole d List.mem_cons_self)), ← List.cons_append,
    readUnsigned?_append hwhole hrest, if_neg hne, finish?, if_neg (by simp [hexponent])]

end Binary64

namespace Timing

variable {cs : List Char} {time : UInt8 × UInt8} {body : List Char} {meridiem : Option Bool}

/-- The first letter of the half of the day. -/
def halfLetter (afternoon : Bool) : Char := if afternoon then 'p' else 'a'

theorem halfLetter_eq (afternoon : Bool) : halfLetter afternoon = 'a' ∨ halfLetter afternoon = 'p' := by
  cases afternoon <;> decide

/-- What stands before the half of the day is the time, without the blanks between them. -/
theorem splitMeridiem_spec (h : splitMeridiem cs = (body, meridiem)) :
    body = cs ∧ meridiem = none ∨ ∃ gap afternoon, Blanks gap ∧ meridiem = some afternoon ∧
      cs = body ++ gap ++ [halfLetter afternoon, 'm'] := by
  unfold splitMeridiem at h
  split at h
  · next front hfront =>
    obtain ⟨gap, hgap, htrim⟩ := exists_trimEnd_append_eq front
    cases h
    refine .inr ⟨gap, false, hgap, rfl, ?_⟩
    rw [htrim]
    exact eq_append_of_dropSuffix? hfront
  · split at h
    · next front hfront =>
      obtain ⟨gap, hgap, htrim⟩ := exists_trimEnd_append_eq front
      cases h
      refine .inr ⟨gap, true, hgap, rfl, ?_⟩
      rw [htrim]
      exact eq_append_of_dropSuffix? hfront
    · cases h
      exact .inl ⟨rfl, rfl⟩

theorem splitClock?_spec {hour minute : List Char} {halved : Bool}
    (h : splitClock? body halved = some (hour, minute)) :
    body = hour ++ ':' :: minute ∨ body = hour ∧ minute = ['0', '0'] ∧ halved = true := by
  have hsplit : body.takeWhile (· ≠ ':') ++ body.dropWhile (· ≠ ':') = body :=
    List.takeWhile_append_dropWhile
  have hhead := List.head?_dropWhile_not (· ≠ ':') body
  unfold splitClock? at h
  split at h
  · next c rest hrest =>
    rw [hrest] at hsplit hhead
    obtain rfl : c = ':' := by simpa using hhead
    cases h
    exact .inl hsplit.symm
  · split at h
    · next hhalved =>
      cases h
      exact .inr ⟨rfl, rfl, hhalved⟩
    · cases h

/-- A clock time that is cut into its hour and its minute, with what their digits come to. -/
structure ClockParts (cs : List Char) (time : UInt8 × UInt8) where
  body : List Char
  meridiem : Option Bool
  hour : List Char
  minute : List Char
  value : Nat
  half_eq : splitMeridiem cs = (body, meridiem)
  parts_eq : splitClock? body meridiem.isSome = some (hour, minute)
  isHour : isHour hour
  isMinute : isMinute minute
  value_eq : hourOfDay? (ofDigits hour) meridiem = some value
  minute_le : ofDigits minute ≤ 59
  time_eq : time = (UInt8.ofNat value, UInt8.ofNat (ofDigits minute))

theorem exists_clockParts (h : readClock? cs = some time) : Nonempty (ClockParts cs time) := by
  unfold readClock? at h
  cases hhalf : splitMeridiem cs with
  | mk body meridiem =>
  rw [hhalf] at h
  obtain ⟨⟨hour, minute⟩, hparts, h⟩ := Option.bind_eq_some_iff.mp h
  dsimp only at h
  split at h
  · next hdigits =>
    obtain ⟨hhour, hminute⟩ := Bool.and_eq_true_iff.mp hdigits
    obtain ⟨value, hvalue, h⟩ := Option.bind_eq_some_iff.mp h
    split at h
    · cases h
    · next hle =>
      exact ⟨⟨body, meridiem, hour, minute, value, hhalf, hparts, hhour, hminute, hvalue,
        not_lt.mp hle, (Option.some.inj h).symm⟩⟩
  · cases h

theorem ClockParts.readClock?_eq (k : ClockParts cs time) : readClock? cs = some time := by
  refine Eq.trans ?_ (congrArg some k.time_eq.symm)
  unfold readClock?
  rw [k.half_eq]
  simp [k.parts_eq, k.isHour, k.isMinute, k.value_eq, k.minute_le]

theorem digits_of_isHour {hour : List Char} (h : isHour hour) :
    hour ≠ [] ∧ ∀ d ∈ hour, isDigit d := by
  simp only [isHour, Bool.and_eq_true, List.all_eq_true] at h
  refine ⟨?_, h.2⟩
  rintro rfl
  simp at h

/-- A clock time starts with its hour. What comes next is a colon, or else the time ends in the half
of the day. -/
structure StartsWithHour (cs hour : List Char) (c : Char) (rest : List Char) : Prop where
  eq : cs = hour ++ c :: rest
  ne_nil : hour ≠ []
  digits : ∀ d ∈ hour, isDigit d
  next : c = ':' ∨ (isBlank c ∨ c = 'a' ∨ c = 'p') ∧ EndsIn (· = 'm') cs

theorem exists_startsWithHour (h : readClock? cs = some time) :
    ∃ hour c rest, StartsWithHour cs hour c rest := by
  obtain ⟨body, meridiem, hour, minute, -, hhalf, hparts, hhour⟩ := exists_clockParts h
  obtain ⟨hne, hdigits⟩ := digits_of_isHour hhour
  rcases splitClock?_spec hparts with rfl | ⟨rfl, -, hhalved⟩
  · obtain ⟨rest, hcs⟩ : ∃ rest, cs = hour ++ ':' :: minute ++ rest := by
      rcases splitMeridiem_spec hhalf with ⟨hcs, -⟩ | ⟨gap, afternoon, -, -, hcs⟩
      · exact ⟨[], by rw [List.append_nil, hcs]⟩
      · exact ⟨gap ++ [halfLetter afternoon, 'm'], by rw [← List.append_assoc, hcs]⟩
    exact ⟨hour, ':', minute ++ rest, by simp [hcs], hne, hdigits, .inl rfl⟩
  · rcases splitMeridiem_spec hhalf with ⟨-, rfl⟩ | ⟨gap, afternoon, hgap, rfl, hcs⟩
    · cases hhalved
    · have hletter := halfLetter_eq afternoon
      generalize halfLetter afternoon = half at *
      have hm : EndsIn (· = 'm') ['m'] := ⟨'m', rfl, rfl⟩
      have hends : EndsIn (· = 'm') cs := by
        rw [hcs]
        exact (hm.append [half]).append (body ++ gap)
      cases gap with
      | nil => exact ⟨body, half, ['m'], by simp [hcs], hne, hdigits, .inr ⟨.inr hletter, hends⟩⟩
      | cons g gs =>
        have hg : isBlank g := hgap g List.mem_cons_self
        exact ⟨body, g, gs ++ [half, 'm'], by simp [hcs], hne, hdigits, .inr ⟨.inl hg, hends⟩⟩

/-- The characters of a token are of its kind, and there are some. -/
structure Token.Uniform (t : Token) : Prop where
  ne_nil : t.text ≠ []
  kind : ∀ c ∈ t.text, tokenKind? c = some t.kind

/-- The characters of a row of tokens. -/
def written (ts : List Token) : List Char := ts.flatMap Token.text

theorem written_glue (kind : TokenKind) (c : Char) (ts : List Token) :
    written (glue kind c ts) = c :: written ts := by
  cases ts with
  | nil => rfl
  | cons t rest =>
    unfold glue
    dsimp only
    split <;> rfl

theorem uniform_glue {kind : TokenKind} {c : Char} {ts : List Token}
    (hc : tokenKind? c = some kind) (hts : ∀ t ∈ ts, t.Uniform) :
    ∀ t ∈ glue kind c ts, t.Uniform := by
  have hsingle : Token.Uniform ⟨kind, [c]⟩ := ⟨by simp, by simpa using hc⟩
  cases ts with
  | nil => simpa [glue] using hsingle
  | cons t rest =>
    rw [List.forall_mem_cons] at hts
    unfold glue
    dsimp only
    split
    · next hkind =>
      have hlonger : Token.Uniform ⟨kind, c :: t.text⟩ := by
        refine ⟨by simp, ?_⟩
        rw [List.forall_mem_cons]
        exact ⟨hc, fun d hd => hkind ▸ hts.1.kind d hd⟩
      exact List.forall_mem_cons.mpr ⟨hlonger, hts.2⟩
    · exact List.forall_mem_cons.mpr ⟨hsingle, List.forall_mem_cons.mpr hts⟩

/-- The tokens of a text make it up. -/
theorem tokens?_spec {ts : List Token} (h : tokens? cs = some ts) :
    written ts = cs ∧ ∀ t ∈ ts, t.Uniform := by
  induction cs generalizing ts with
  | nil =>
    cases h
    exact ⟨rfl, by simp⟩
  | cons c rest ih =>
    obtain ⟨kind, hkind, h⟩ := Option.bind_eq_some_iff.mp h
    obtain ⟨ts', hts', h⟩ := Option.bind_eq_some_iff.mp h
    cases h
    obtain ⟨hwritten, huniform⟩ := ih hts'
    exact ⟨by rw [written_glue, hwritten], uniform_glue hkind huniform⟩

/-- No unit is written with an `m` at its end. -/
theorem getLast?_ne_of_unit? {word : List Char} (h : (unit? word).isSome) :
    word.getLast? ≠ some 'm' := by
  have htable : ∀ u ∈ units, u.1.getLast? ≠ some 'm' := by decide +kernel
  unfold unit? at h
  split at h
  · next length hlength =>
    obtain ⟨before, after, hunits, -⟩ := List.lookup_eq_some_iff.mp hlength
    exact htable (word, length) (by simp [hunits])
  · obtain ⟨length, hlength⟩ := Option.isSome_iff_exists.mp h
    obtain ⟨stem, hstem, -⟩ := Option.bind_eq_some_iff.mp hlength
    rw [eq_append_of_dropSuffix? hstem]
    simp

theorem exists_unit_of_group? {count word : List Char} {d : Duration}
    (h : group? count word = some d) : (unit? (word.map Char.toLower)).isSome := by
  unfold group? at h
  obtain ⟨count, -, h⟩ := Option.bind_eq_some_iff.mp h
  obtain ⟨length, hlength, -⟩ := Option.bind_eq_some_iff.mp h
  rw [hlength]
  rfl

/-- A sum ends in the unit of its last group. -/
theorem exists_unit_of_sumGroups? {total d : Duration} {parts : List Token} (hne : parts ≠ [])
    (h : sumGroups? total parts = some d) :
    ∃ front word, parts = front ++ [⟨.word, word⟩] ∧ (unit? (word.map Char.toLower)).isSome := by
  induction total, parts using sumGroups?.induct with
  | case1 total => exact absurd rfl hne
  | case2 total count word rest ih =>
    unfold sumGroups? at h
    obtain ⟨span, hspan, h⟩ := Option.bind_eq_some_iff.mp h
    cases rest with
    | nil => exact ⟨[⟨.number, count⟩], word, rfl, exists_unit_of_group? hspan⟩
    | cons t rest =>
      obtain ⟨front, last, hrest, hunit⟩ := ih span (by simp) h
      exact ⟨⟨.number, count⟩ :: ⟨.word, word⟩ :: front, last, by rw [hrest]; rfl, hunit⟩
  | case3 total word rest ih =>
    unfold sumGroups? at h
    obtain ⟨span, hspan, h⟩ := Option.bind_eq_some_iff.mp h
    cases rest with
    | nil => exact ⟨[], word, rfl, exists_unit_of_group? hspan⟩
    | cons t rest =>
      obtain ⟨front, last, hrest, hunit⟩ := ih span (by simp) h
      exact ⟨⟨.word, word⟩ :: front, last, by rw [hrest]; rfl, hunit⟩
  | case4 total parts =>
    simp [sumGroups?] at h

/-- The character may end a row of counted units, as a blank or as a letter of a unit. -/
def ClosesCount (c : Char) : Prop := tokenKind? c = some .blank ∨ tokenKind? c = some .word ∧ c ≠ 'm'

theorem Token.Uniform.endsIn {t : Token} (h : t.Uniform) :
    EndsIn (tokenKind? · = some t.kind) t.text := endsIn_of_forall h.ne_nil h.kind

theorem endsIn_of_unit? {word : List Char} (hword : Token.Uniform ⟨.word, word⟩)
    (hunit : (unit? (word.map Char.toLower)).isSome) : EndsIn ClosesCount word := by
  obtain ⟨c, hlast, hc⟩ := hword.endsIn
  refine ⟨c, hlast, .inr ⟨hc, ?_⟩⟩
  rintro rfl
  apply getLast?_ne_of_unit? hunit
  rw [List.getLast?_map, hlast]
  rfl

/-- Counted units end in a unit or in blanks, and all their characters are of one of three kinds. -/
theorem endsIn_of_readWords? {d : Duration} (h : readWords? cs = some d) :
    EndsIn ClosesCount cs ∧ ∀ c ∈ cs, (tokenKind? c).isSome := by
  unfold readWords? at h
  obtain ⟨ts, hts, hsum⟩ := Option.bind_eq_some_iff.mp h
  obtain ⟨rfl, huniform⟩ := tokens?_spec hts
  dsimp only at hsum
  split at hsum
  · cases hsum
  · next hne =>
    obtain ⟨front, word, hparts, hunit⟩ := exists_unit_of_sumGroups? (by simpa using hne) hsum
    constructor
    · obtain rfl | ⟨init, t, rfl⟩ := List.eq_nil_or_concat ts
      · simp at hne
      · have ht : t.Uniform := huniform t (by simp)
        have hends : EndsIn ClosesCount t.text := by
          by_cases hkind : t.kind = .blank
          · exact ht.endsIn.mono fun c hc => .inl (hkind ▸ hc)
          · rw [List.concat_eq_append, List.filter_append,
              List.filter_cons_of_pos (by simpa using hkind)] at hparts
            obtain rfl : t = ⟨.word, word⟩ := by simpa using (List.append_inj' hparts rfl).2
            exact endsIn_of_unit? ht hunit
        simpa [written] using hends.append (written init)
    · intro c hc
      obtain ⟨t, ht, hct⟩ := List.mem_flatMap.mp hc
      rw [(huniform t ht).kind c hct]
      rfl

end Timing
end Timekeeping
