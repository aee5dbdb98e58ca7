import Timekeeping.Proofs.Number.Numerals

/-!
Counted units, one group after the other. A text is cut where its characters change their kind: blanks,
the figures of a count, blanks, the letters of a unit, and then what is left. The sum of a text is that
of its first group and of what is left, so it can be found in one pass.
-/
namespace Timekeeping.Timing

open Text Binary64

/-- The character is of the kind. -/
def TokenKind.has (kind : TokenKind) (c : Char) : Bool := tokenKind? c = some kind

variable {c : Char} {cs rest : List Char} {kind : TokenKind} {total : Duration}

theorem has_iff : kind.has c ↔ tokenKind? c = some kind := decide_eq_true_iff

/-- No character is of two kinds. -/
theorem not_has {other : TokenKind} (h : kind.has c) (hne : kind ≠ other) : ¬ other.has c := by
  rw [has_iff] at h ⊢
  rw [h]
  exact fun heq => hne (Option.some.inj heq)

theorem isAlpha_iff : c.isAlpha ↔ 65 ≤ c.toNat ∧ c.toNat ≤ 90 ∨ 97 ≤ c.toNat ∧ c.toNat ≤ 122 := by
  have hupper : c.isUpper ↔ 65 ≤ c.toNat ∧ c.toNat ≤ 90 := by
    change decide ('A'.val ≤ c.val ∧ c.val ≤ 'Z'.val) = true ↔ _
    rw [decide_eq_true_iff]
    exact and_congr UInt32.le_iff_toNat_le UInt32.le_iff_toNat_le
  have hlower : c.isLower ↔ 97 ≤ c.toNat ∧ c.toNat ≤ 122 := by
    change (decide ('a'.val ≤ c.val) && decide (c.val ≤ 'z'.val)) = true ↔ _
    rw [Bool.and_eq_true, decide_eq_true_iff, decide_eq_true_iff]
    exact and_congr UInt32.le_iff_toNat_le UInt32.le_iff_toNat_le
  change (c.isUpper || c.isLower) = true ↔ _
  rw [Bool.or_eq_true, hupper, hlower]

theorem isFigure_iff : IsFigure c ↔ 48 ≤ c.toNat ∧ c.toNat ≤ 57 ∨ c.toNat = 46 := by
  rw [IsFigure, isDigit_iff, ← Char.toNat_inj]
  rfl

theorem isAsciiBlank_iff :
    isAsciiBlank c ↔ c.toNat = 32 ∨ c.toNat = 9 ∨ c.toNat = 10 ∨ c.toNat = 12 ∨ c.toNat = 13 := by
  simp [isAsciiBlank, or_assoc]

theorem tokenKind?_eq (c : Char) : tokenKind? c =
    if IsFigure c then some .number else if c.isAlpha then some .word
    else if isAsciiBlank c then some .blank else none := rfl

theorem has_number : TokenKind.number.has = fun c => decide (IsFigure c) := by
  funext c
  rw [Bool.eq_iff_iff, has_iff, decide_eq_true_iff, tokenKind?_eq]
  split_ifs with hfigure <;> simp [hfigure]

theorem has_word : TokenKind.word.has = Char.isAlpha := by
  funext c
  rw [Bool.eq_iff_iff, has_iff, tokenKind?_eq]
  split_ifs with hfigure halpha hblank
  · rw [isFigure_iff] at hfigure
    rw [isAlpha_iff]
    simp only [Option.some.injEq, reduceCtorEq, false_iff]
    omega
  · simp [halpha]
  · simp [halpha]
  · simp [halpha]

theorem has_blank : TokenKind.blank.has = isAsciiBlank := by
  funext c
  rw [Bool.eq_iff_iff, has_iff, tokenKind?_eq]
  split_ifs with hfigure halpha hblank
  · rw [isFigure_iff] at hfigure
    rw [isAsciiBlank_iff]
    simp only [Option.some.injEq, reduceCtorEq, false_iff]
    omega
  · rw [isAlpha_iff] at halpha
    rw [isAsciiBlank_iff]
    simp only [Option.some.injEq, reduceCtorEq, false_iff]
    omega
  · simp [hblank]
  · simp [hblank]

section Tokens

variable {run : List Char} {t : Token} {ts : List Token}

theorem tokens?_cons (c : Char) (cs : List Char) :
    tokens? (c :: cs) = (tokenKind? c).bind fun kind => (tokens? cs).map (glue kind c) := by
  rw [tokens?]
  cases tokenKind? c <;> cases tokens? cs <;> rfl

theorem head_has_of_tokens? (h : tokens? cs = some (t :: ts)) : ∃ c ∈ cs.head?, t.kind.has c := by
  obtain ⟨rfl, huniform⟩ := tokens?_spec h
  obtain ⟨hne, hkind⟩ := huniform t List.mem_cons_self
  obtain ⟨c, text, htext⟩ := List.exists_cons_of_ne_nil hne
  exact ⟨c, by simp [written, htext], has_iff.mpr (hkind c (by simp [htext]))⟩

/-- A longest run of a kind is a token. -/
theorem tokens?_run (hne : run ≠ []) (hrun : ∀ c ∈ run, kind.has c)
    (hrest : ∀ c ∈ rest.head?, ¬ kind.has c) :
    tokens? (run ++ rest) = (tokens? rest).map (⟨kind, run⟩ :: ·) := by
  induction run with
  | nil => exact absurd rfl hne
  | cons c run ih =>
    obtain ⟨hc, hrun⟩ := List.forall_mem_cons.mp hrun
    rw [List.cons_append, tokens?_cons, has_iff.mp hc, Option.bind_some]
    cases run with
    | nil =>
      rw [List.nil_append]
      cases hts : tokens? rest with
      | none => rfl
      | some ts =>
        cases ts with
        | nil => rfl
        | cons t ts =>
          obtain ⟨d, hd, hkind⟩ := head_has_of_tokens? hts
          have hother : t.kind ≠ kind := fun heq => hrest d hd (heq ▸ hkind)
          simp [glue, hother]
    | cons d run =>
      rw [ih (by simp) hrun]
      cases tokens? rest <;> simp [glue]

/-- The tokens of a text without its blanks. -/
def parts? (cs : List Char) : Option (List Token) :=
  (tokens? cs).map fun ts => ts.filter fun t => t.kind ≠ .blank

theorem parts?_blank (hc : TokenKind.blank.has c) (cs : List Char) : parts? (c :: cs) = parts? cs := by
  unfold parts?
  rw [tokens?_cons, has_iff.mp hc, Option.bind_some, Option.map_map]
  congr 1
  funext ts
  cases ts with
  | nil => rfl
  | cons t ts =>
    by_cases hkind : t.kind = .blank <;> simp [glue, hkind]

theorem parts?_blanks (hrun : ∀ c ∈ run, TokenKind.blank.has c) (cs : List Char) :
    parts? (run ++ cs) = parts? cs := by
  induction run with
  | nil => rfl
  | cons c run ih =>
    obtain ⟨hc, hrun⟩ := List.forall_mem_cons.mp hrun
    rw [List.cons_append, parts?_blank hc, ih hrun]

theorem parts?_run (hkind : kind ≠ .blank) (hne : run ≠ []) (hrun : ∀ c ∈ run, kind.has c)
    (hrest : ∀ c ∈ rest.head?, ¬ kind.has c) :
    parts? (run ++ rest) = (parts? rest).map (⟨kind, run⟩ :: ·) := by
  unfold parts?
  rw [tokens?_run hne hrun hrest, Option.map_map, Option.map_map]
  congr 1
  funext ts
  simp [hkind]

theorem parts?_eq_none (hc : ∀ kind : TokenKind, ¬ kind.has c) (cs : List Char) :
    parts? (c :: cs) = none := by
  have hnone : tokenKind? c = none :=
    Option.eq_none_iff_forall_ne_some.mpr fun kind h => hc kind (has_iff.mpr h)
  unfold parts?
  rw [tokens?_cons, hnone]
  rfl

theorem head_has_of_parts? (hcs : ∀ c ∈ cs.head?, ¬ TokenKind.blank.has c)
    (h : parts? cs = some (t :: ts)) : ∃ c ∈ cs.head?, t.kind.has c := by
  obtain ⟨tokens, htokens, hfilter⟩ := Option.map_eq_some_iff.mp h
  cases tokens with
  | nil => cases hfilter
  | cons first tokens =>
    obtain ⟨c, hc, hhas⟩ := head_has_of_tokens? htokens
    have hkind : first.kind ≠ .blank := fun heq => hcs c hc (heq ▸ hhas)
    rw [List.filter_cons_of_pos (by simpa using hkind)] at hfilter
    cases hfilter
    exact ⟨c, hc, hhas⟩

end Tokens

section Sums

variable {lead figures gap word : List Char}

/-- The sum of the groups of a text and of what came before it. -/
def sum? (total : Duration) (cs : List Char) : Option Duration := (parts? cs).bind (sumGroups? total)

/-- The span of a group by its figures, which may be left out, and its letters. -/
def span? (figures word : List Char) : Option Duration :=
  group? (if figures = [] then ['1'] else figures) word

theorem span?_nil (figures : List Char) : span? figures [] = none := by
  rw [Option.eq_none_iff_forall_ne_some]
  intro d hd
  exact absurd (exists_unit_of_group? hd) (by decide +kernel)

theorem sum?_nil (total : Duration) : sum? total [] = some total := by
  simp [sum?, parts?, tokens?, sumGroups?]

theorem sum?_blanks (hlead : ∀ c ∈ lead, TokenKind.blank.has c) (cs : List Char) :
    sum? total (lead ++ cs) = sum? total cs := by
  unfold sum?
  rw [parts?_blanks hlead]

theorem sum?_word (hne : word ≠ []) (hword : ∀ c ∈ word, TokenKind.word.has c)
    (hrest : ∀ c ∈ rest.head?, ¬ TokenKind.word.has c) :
    sum? total (word ++ rest) = (span? [] word).bind fun d => sum? (total + d) rest := by
  unfold sum? span?
  rw [parts?_run (by decide) hne hword hrest, if_pos rfl]
  cases parts? rest with
  | none => simp
  | some ts =>
    rw [Option.map_some, Option.bind_some, sumGroups?]
    rfl

/-- A group with a count. -/
theorem sum?_figures (hfigures : figures ≠ [] ∧ ∀ c ∈ figures, TokenKind.number.has c)
    (hgap : ∀ c ∈ gap, TokenKind.blank.has c)
    (hword : word ≠ [] ∧ ∀ c ∈ word, TokenKind.word.has c)
    (hrest : ∀ c ∈ rest.head?, ¬ TokenKind.word.has c) :
    sum? total (figures ++ (gap ++ (word ++ rest))) =
      (span? figures word).bind fun d => sum? (total + d) rest := by
  have hends : ∀ c ∈ (gap ++ (word ++ rest)).head?, ¬ TokenKind.number.has c := by
    intro c hc
    cases gap with
    | cons g gap =>
      obtain rfl : g = c := by simpa using hc
      exact not_has (hgap g List.mem_cons_self) (by decide)
    | nil =>
      obtain ⟨w, ws, rfl⟩ := List.exists_cons_of_ne_nil hword.1
      obtain rfl : w = c := by simpa using hc
      exact not_has (hword.2 w List.mem_cons_self) (by decide)
  unfold sum? span?
  rw [parts?_run (by decide) hfigures.1 hfigures.2 hends, parts?_blanks hgap,
    parts?_run (by decide) hword.1 hword.2 hrest, if_neg hfigures.1]
  cases parts? rest with
  | none => simp
  | some ts =>
    rw [Option.map_some, Option.map_some, Option.bind_some, sumGroups?]
    rfl

theorem sum?_group (hlead : ∀ c ∈ lead, TokenKind.blank.has c)
    (hfigures : ∀ c ∈ figures, TokenKind.number.has c) (hgap : ∀ c ∈ gap, TokenKind.blank.has c)
    (hne : word ≠ []) (hword : ∀ c ∈ word, TokenKind.word.has c)
    (hrest : ∀ c ∈ rest.head?, ¬ TokenKind.word.has c) :
    sum? total (lead ++ figures ++ gap ++ word ++ rest) =
      (span? figures word).bind fun d => sum? (total + d) rest := by
  simp only [List.append_assoc]
  rw [sum?_blanks hlead]
  by_cases hcount : figures = []
  · rw [hcount, List.nil_append, sum?_blanks hgap, sum?_word hne hword hrest]
  · exact sum?_figures ⟨hcount, hfigures⟩ hgap ⟨hne, hword⟩ hrest

/-- A count without a unit. -/
theorem sum?_no_word (hfigures : figures ≠ [] ∧ ∀ c ∈ figures, TokenKind.number.has c)
    (hgap : ∀ c ∈ gap, TokenKind.blank.has c)
    (hends : ∀ c ∈ (gap ++ rest).head?, ¬ TokenKind.number.has c)
    (hblank : ∀ c ∈ rest.head?, ¬ TokenKind.blank.has c)
    (hrest : ∀ c ∈ rest.head?, ¬ TokenKind.word.has c) :
    sum? total (figures ++ (gap ++ rest)) = none := by
  unfold sum?
  rw [parts?_run (by decide) hfigures.1 hfigures.2 hends, parts?_blanks hgap]
  cases hparts : parts? rest with
  | none => rfl
  | some ts =>
    cases ts with
    | nil => simp [sumGroups?]
    | cons t ts =>
      obtain ⟨c, hc, hhas⟩ := head_has_of_parts? hblank hparts
      have hkind : t.kind ≠ .word := fun heq => hrest c hc (heq ▸ hhas)
      obtain ⟨kind, text⟩ := t
      cases kind with
      | word => exact absurd rfl hkind
      | _ => simp [sumGroups?]

end Sums

section Cuts

/-- A text that is cut where a group should end: blanks, figures, blanks, letters and what is left,
each as long as it can be. -/
structure Cut (cs : List Char) where
  lead : List Char
  figures : List Char
  gap : List Char
  word : List Char
  rest : List Char
  eq : cs = lead ++ figures ++ gap ++ word ++ rest
  lead_has : ∀ c ∈ lead, TokenKind.blank.has c
  figures_has : ∀ c ∈ figures, TokenKind.number.has c
  gap_has : ∀ c ∈ gap, TokenKind.blank.has c
  word_has : ∀ c ∈ word, TokenKind.word.has c
  lead_ends : ∀ c ∈ (figures ++ (gap ++ (word ++ rest))).head?, ¬ TokenKind.blank.has c
  figures_ends : ∀ c ∈ (gap ++ (word ++ rest)).head?, ¬ TokenKind.number.has c
  gap_ends : ∀ c ∈ (word ++ rest).head?, ¬ TokenKind.blank.has c
  word_ends : ∀ c ∈ rest.head?, ¬ TokenKind.word.has c

/-- Every text starts with a run of a kind, which may be empty. -/
theorem exists_run_append (kind : TokenKind) (cs : List Char) : ∃ run rest, cs = run ++ rest ∧
    (∀ c ∈ run, kind.has c) ∧ ∀ c ∈ rest.head?, ¬ kind.has c := by
  refine ⟨cs.takeWhile kind.has, cs.dropWhile kind.has, List.takeWhile_append_dropWhile.symm,
    fun c hc => List.mem_takeWhile_imp hc, ?_⟩
  have hhead := List.head?_dropWhile_not kind.has cs
  intro c hc
  rw [Option.mem_def] at hc
  rw [hc] at hhead
  simpa using hhead

theorem exists_cut (cs : List Char) : Nonempty (Cut cs) := by
  obtain ⟨lead, start, rfl, hlead, hleadEnds⟩ := exists_run_append .blank cs
  obtain ⟨figures, behind, rfl, hfigures, hfiguresEnds⟩ := exists_run_append .number start
  obtain ⟨gap, unit, rfl, hgap, hgapEnds⟩ := exists_run_append .blank behind
  obtain ⟨word, rest, rfl, hword, hwordEnds⟩ := exists_run_append .word unit
  exact ⟨{
    lead, figures, gap, word, rest
    eq := by simp only [List.append_assoc]
    lead_has := hlead
    figures_has := hfigures
    gap_has := hgap
    word_has := hword
    lead_ends := hleadEnds
    figures_ends := hfiguresEnds
    gap_ends := hgapEnds
    word_ends := hwordEnds }⟩

namespace Cut

variable {cs : List Char} (k : Cut cs)

/-- The text behind the first blanks. -/
def start : List Char := k.figures ++ (k.gap ++ (k.word ++ k.rest))

theorem eq_start : cs = k.lead ++ k.start := by
  rw [start]
  simpa only [List.append_assoc] using k.eq

theorem length_rest_lt (hne : k.word ≠ []) : k.rest.length < cs.length := by
  have hlength := congrArg List.length k.eq
  have hword := List.length_pos_iff.mpr hne
  simp only [List.length_append] at hlength
  omega

theorem eq_lead (hstart : k.start = []) : cs = k.lead := by
  have hcs := k.eq_start
  rwa [hstart, List.append_nil] at hcs

theorem sum?_eq_some (total : Duration) (hstart : k.start = []) : sum? total cs = some total := by
  have hcs := k.eq_start
  rw [hstart] at hcs
  rw [hcs, sum?_blanks k.lead_has, sum?_nil]

theorem sum?_eq_of_word (total : Duration) (hne : k.word ≠ []) :
    sum? total cs = (span? k.figures k.word).bind fun d => sum? (total + d) k.rest := by
  conv_lhs => rw [k.eq]
  exact sum?_group k.lead_has k.figures_has k.gap_has hne k.word_has k.word_ends

theorem sum?_eq_none (total : Duration) (hstart : k.start ≠ []) (hword : k.word = []) :
    sum? total cs = none := by
  have hlead := k.lead_ends
  have hfigures := k.figures_ends
  have hgap := k.gap_ends
  conv_lhs => rw [k.eq_start]
  rw [sum?_blanks k.lead_has]
  unfold start at hstart ⊢
  rw [hword, List.nil_append] at hlead hfigures hgap hstart ⊢
  by_cases hcount : k.figures = []
  · rw [hcount, List.nil_append] at hlead hstart ⊢
    -- The first character behind the blanks is neither a figure nor a letter.
    obtain ⟨c, cs, hcs⟩ := List.exists_cons_of_ne_nil hstart
    rw [hcs] at hlead hfigures ⊢
    have hblank : ¬ TokenKind.blank.has c := hlead c rfl
    have hgapNil : k.gap = [] := by
      rw [List.eq_nil_iff_forall_not_mem]
      intro g hg
      obtain ⟨d, ds, hds⟩ := List.exists_cons_of_ne_nil (List.ne_nil_of_mem hg)
      rw [hds] at hcs
      obtain rfl : d = c := (List.cons.inj hcs).1
      exact hblank (k.gap_has d (by simp [hds]))
    rw [hgapNil, List.nil_append] at hcs
    have hletter : ¬ TokenKind.word.has c := k.word_ends c (by simp [hcs])
    have hnone : parts? (c :: cs) = none := by
      apply parts?_eq_none
      intro kind
      cases kind with
      | number => exact hfigures c rfl
      | word => exact hletter
      | blank => exact hblank
    rw [sum?, hnone]
    rfl
  · exact sum?_no_word ⟨hcount, k.figures_has⟩ k.gap_has hfigures hgap k.word_ends

end Cut

end Cuts

section Grammar

/-- The count that the figures of a group say; without figures it is one. -/
inductive Counts : List Char → Rat → Prop
  | one : Counts [] 1
  | numeral {cs : List Char} {q : Rat} (h : Numeral cs q) : Counts cs q

/-- The letters are a word for a unit of the length, in any case, and may have a plural `s`. -/
def Names (word : List Char) (length : Int) : Prop := ∃ unit ∈ units, unit.2 = length ∧
  (word.map Char.toLower = unit.1 ∨ word.map Char.toLower = unit.1 ++ ['s'])

/-- A count of units in seconds. -/
def seconds (count : Rat) (length : Int) : Binary64 :=
  ((Binary64.round count).scale length).scale (mkRat 1 1000000000000)

/-- The text is made of groups with these spans. There may be blanks before, between and after all
parts. -/
inductive Spells : List Char → List Duration → Prop
  | done {blanks : List Char} (hblanks : ∀ c ∈ blanks, isAsciiBlank c) : Spells blanks []
  | group {lead count gap word rest : List Char} {q : Rat} {length : Int} {d : Duration}
    {ds : List Duration} (hlead : ∀ c ∈ lead, isAsciiBlank c) (hcount : Counts count q)
    (hgap : ∀ c ∈ gap, isAsciiBlank c) (hletters : ∀ c ∈ word, c.isAlpha)
    (hmaximal : ∀ c ∈ rest.head?, ¬ c.isAlpha) (hword : Names word length)
    (hspan : Duration.ofSecondsReal? (seconds q length) = some d) (hrest : Spells rest ds) :
    Spells (lead ++ count ++ gap ++ word ++ rest) (d :: ds)

variable {word count : List Char} {length : Int} {d t : Duration} {ds : List Duration}
  {x : Binary64}

theorem unit?_eq_some_iff : unit? (word.map Char.toLower) = some length ↔ Names word length := by
  generalize hlower : word.map Char.toLower = lower
  rw [Names, hlower]
  constructor
  · intro h
    have hmem : ∀ {name}, units.lookup name = some length → (name, length) ∈ units := by
      intro name hname
      obtain ⟨before, after, hunits, -⟩ := List.lookup_eq_some_iff.mp hname
      simp [hunits]
    unfold unit? at h
    split at h
    · next hlookup =>
      cases h
      exact ⟨_, hmem hlookup, rfl, .inl rfl⟩
    · obtain ⟨stem, hstem, hlookup⟩ := Option.bind_eq_some_iff.mp h
      exact ⟨_, hmem hlookup, rfl, .inr (eq_append_of_dropSuffix? hstem)⟩
  · rintro ⟨unit, hunit, rfl, hname⟩
    have htable : ∀ unit ∈ units,
        unit? unit.1 = some unit.2 ∧ unit? (unit.1 ++ ['s']) = some unit.2 := by decide +kernel
    rcases hname with rfl | rfl
    · exact (htable unit hunit).1
    · exact (htable unit hunit).2

theorem Names.ne_nil (h : Names word length) : word ≠ [] := by
  rintro rfl
  have hunit := unit?_eq_some_iff.mpr h
  have hnil : unit? [] = none := by decide +kernel
  rw [List.map_nil, hnil] at hunit
  cases hunit

theorem Counts.figures {q : Rat} (h : Counts count q) : ∀ c ∈ count, IsFigure c := by
  cases h with
  | one => simp
  | numeral h => exact h.figures

theorem Counts.nonneg {q : Rat} (h : Counts count q) : 0 ≤ q := by
  cases h with
  | one => decide
  | numeral h => exact h.nonneg

theorem read?_count_iff (hcount : ∀ c ∈ count, IsFigure c) :
    Binary64.read? (if count = [] then ['1'] else count) = some x ↔
      ∃ q, Counts count q ∧ x = Binary64.round q := by
  by_cases hnil : count = []
  · subst hnil
    have hone : Binary64.read? ['1'] = some (Binary64.round 1) :=
      (Numeral.whole (by simp) (List.forall_mem_singleton.mpr (by decide))).read?_eq
    rw [if_pos rfl, hone]
    constructor
    · rintro ⟨⟩
      exact ⟨1, .one, rfl⟩
    · rintro ⟨q, hq, rfl⟩
      cases hq with
      | one => rfl
      | numeral h => exact absurd rfl h.ne_nil
  · rw [if_neg hnil]
    constructor
    · intro h
      obtain ⟨q, hq, hx⟩ := exists_numeral_of_read? hcount h
      exact ⟨q, .numeral hq, hx⟩
    · rintro ⟨q, hq, rfl⟩
      cases hq with
      | one => exact absurd rfl hnil
      | numeral h => exact h.read?_eq

theorem span?_eq_some_iff (hcount : ∀ c ∈ count, IsFigure c) :
    span? count word = some d ↔ ∃ q length, Counts count q ∧ Names word length ∧
      Duration.ofSecondsReal? (seconds q length) = some d := by
  unfold span? group?
  constructor
  · intro h
    obtain ⟨x, hx, h⟩ := Option.bind_eq_some_iff.mp h
    obtain ⟨length, hlength, hspan⟩ := Option.bind_eq_some_iff.mp h
    obtain ⟨q, hq, rfl⟩ := (read?_count_iff hcount).mp hx
    exact ⟨q, length, hq, unit?_eq_some_iff.mp hlength, hspan⟩
  · rintro ⟨q, length, hq, hword, hspan⟩
    rw [(read?_count_iff hcount).mpr ⟨q, hq, rfl⟩, unit?_eq_some_iff.mpr hword]
    exact hspan

theorem sum?_eq_some_of_spells (h : Spells cs ds) :
    sum? total cs = some (ds.foldl (· + ·) total) := by
  induction h generalizing total with
  | @done blanks hblanks =>
    have hsum : sum? total (blanks ++ []) = sum? total [] := sum?_blanks (by rwa [has_blank]) []
    rwa [List.append_nil, sum?_nil] at hsum
  | group hlead hcount hgap hletters hmaximal hword hspan hrest ih =>
    have hspan := (span?_eq_some_iff hcount.figures).mpr ⟨_, _, hcount, hword, hspan⟩
    rw [sum?_group (by rwa [has_blank]) (by simpa [has_number] using hcount.figures)
      (by rwa [has_blank]) hword.ne_nil (by rwa [has_word]) (by rwa [has_word]), hspan,
      Option.bind_some, ih]
    rfl

theorem exists_spells_of_sum? (h : sum? total cs = some t) :
    ∃ ds, Spells cs ds ∧ t = ds.foldl (· + ·) total := by
  induction hlength : cs.length using Nat.strongRecOn generalizing cs total with
  | ind n ih =>
    obtain ⟨k⟩ := exists_cut cs
    have hlead : ∀ c ∈ k.lead, isAsciiBlank c := has_blank ▸ k.lead_has
    by_cases hstart : k.start = []
    · rw [k.sum?_eq_some total hstart] at h
      exact ⟨[], k.eq_lead hstart ▸ .done hlead, (Option.some.inj h).symm⟩
    · by_cases hword : k.word = []
      · rw [k.sum?_eq_none total hstart hword] at h
        cases h
      · rw [k.sum?_eq_of_word total hword] at h
        obtain ⟨d, hd, hrest⟩ := Option.bind_eq_some_iff.mp h
        have hfigures : ∀ c ∈ k.figures, IsFigure c := by
          simpa [has_number] using k.figures_has
        obtain ⟨q, length, hcount, hname, hspan⟩ := (span?_eq_some_iff hfigures).mp hd
        obtain ⟨ds, hds, rfl⟩ := ih _ (hlength ▸ k.length_rest_lt hword) hrest rfl
        refine ⟨d :: ds, ?_, rfl⟩
        rw [k.eq]
        exact .group hlead hcount (has_blank ▸ k.gap_has) (has_word ▸ k.word_has)
          (has_word ▸ k.word_ends) hname hspan hds

theorem parts?_eq_nil_iff : parts? cs = some [] ↔ ∀ c ∈ cs, TokenKind.blank.has c := by
  constructor
  · intro h
    obtain ⟨ts, hts, hfilter⟩ := Option.map_eq_some_iff.mp h
    obtain ⟨rfl, huniform⟩ := tokens?_spec hts
    intro c hc
    obtain ⟨t, ht, hct⟩ := List.mem_flatMap.mp hc
    have hblank : t.kind = .blank := by simpa using List.filter_eq_nil_iff.mp hfilter t ht
    exact has_iff.mpr (hblank ▸ (huniform t ht).kind c hct)
  · intro h
    have hparts := parts?_blanks h []
    rwa [List.append_nil] at hparts

theorem Spells.eq_nil_iff (h : Spells cs ds) : ds = [] ↔ ∀ c ∈ cs, TokenKind.blank.has c := by
  cases h with
  | done hblanks => simpa [has_blank] using hblanks
  | @group _ _ _ word _ _ _ _ _ hlead hcount hgap hletters hmaximal hword =>
    obtain ⟨w, ws, hw⟩ := List.exists_cons_of_ne_nil hword.ne_nil
    have hletter : TokenKind.word.has w := by
      rw [has_word]
      exact hletters w (by simp [hw])
    refine iff_of_false (by simp) fun hblanks => ?_
    exact not_has hletter (by decide) (hblanks w (by simp [hw]))

theorem readWords?_eq (cs : List Char) :
    readWords? cs = if cs.all TokenKind.blank.has then none else sum? .zero cs := by
  have hnil : cs.all TokenKind.blank.has = true ↔ parts? cs = some [] := by
    rw [List.all_eq_true, parts?_eq_nil_iff]
  have hread : readWords? cs =
      (parts? cs).bind fun parts => if parts = [] then none else sumGroups? .zero parts := by
    unfold readWords? parts?
    cases tokens? cs <;> simp
  rw [hread, sum?]
  split
  · next h => simp [hnil.mp h]
  · next h =>
    cases hparts : parts? cs with
    | none => rfl
    | some parts =>
      rw [Option.bind_some, Option.bind_some, if_neg]
      rintro rfl
      exact h (hnil.mpr hparts)

/-- A text is read if it is made of groups, and there is one. -/
theorem readWords?_eq_some_iff : readWords? cs = some t ↔
    ∃ ds, ds ≠ [] ∧ Spells cs ds ∧ t = ds.foldl (· + ·) Duration.zero := by
  rw [readWords?_eq]
  constructor
  · intro h
    split at h
    · cases h
    · next hblanks =>
      obtain ⟨ds, hds, ht⟩ := exists_spells_of_sum? h
      exact ⟨ds, fun hnil => hblanks (List.all_eq_true.mpr (hds.eq_nil_iff.mp hnil)), hds, ht⟩
  · rintro ⟨ds, hne, hds, rfl⟩
    rw [if_neg fun hblanks => hne (hds.eq_nil_iff.mpr (List.all_eq_true.mp hblanks))]
    exact sum?_eq_some_of_spells hds

end Grammar

end Timekeeping.Timing
