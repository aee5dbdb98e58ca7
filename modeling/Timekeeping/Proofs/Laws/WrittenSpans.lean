import Timekeeping.Proofs.Text.Bytes
import Timekeeping.Proofs.Text.CountedUnits
import Timekeeping.Proofs.Time.Grids
import Timekeeping.Proofs.Time.Totals

/-!
Which spans texts stand for. A text stands for one just if it is made of groups of a count and a unit,
and then for the sum of their spans. It can be read byte by byte, whatever characters it has: no slice
is taken within a character, and each group moves the reader on. Two such texts with a blank between
them stand for the sum of what they stand for, in either order.
-/
namespace Timekeeping

namespace Binary64

/-- A number that is not below zero, if it is finite. -/
def NonNeg (x : Binary64) : Prop := ∀ q, x = finite q → 0 ≤ q

variable {x : Binary64} {q : Rat}

theorem nonNeg_round (hq : 0 ≤ q) : (round q).NonNeg := by
  intro s hs
  rcases hq.lt_or_eq with hpos | rfl
  · exact nonneg_of_round hpos hs
  · exact (finite.inj hs).le

theorem NonNeg.scale (hx : x.NonNeg) (hq : 0 ≤ q) : (x.scale q).NonNeg := by
  cases x with
  | finite r => exact nonNeg_round (mul_nonneg (hx r rfl) hq)
  | nan => exact hx
  | infinite => exact hx

theorem truncate_nonneg (hq : 0 ≤ q) : 0 ≤ truncate q :=
  Int.tdiv_nonneg (Rat.num_nonneg.mpr hq) (Int.natCast_nonneg _)

theorem truncate_le (hq : 0 ≤ q) : (truncate q : Rat) ≤ q := by
  have hden : (0 : Rat) < q.den := by exact_mod_cast q.den_pos
  have hfloor : truncate q * q.den ≤ q.num := by
    unfold truncate
    rw [Int.tdiv_eq_ediv_of_nonneg (Rat.num_nonneg.mpr hq)]
    exact Int.ediv_mul_le _ (by exact_mod_cast q.den_ne_zero)
  rw [← Rat.num_div_den q, le_div_iff₀ hden, Rat.num_div_den]
  exact_mod_cast hfloor

end Binary64

namespace Duration

/-- A span that is stored for a total which is not negative. -/
def OfNonNeg (d : Duration) : Prop := ∃ n : Int, 0 ≤ n ∧ d = ofTotal n

theorem ofNonNeg_of_ofSecondsReal? {x : Binary64} {d : Duration} (hx : x.NonNeg)
    (h : ofSecondsReal? x = some d) : d.OfNonNeg := by
  cases x with
  | finite q =>
    have hq := hx q rfl
    have hwhole := Binary64.truncate_nonneg hq
    have hfraction : 0 ≤ (q - Binary64.truncate q) * 1000000000000 :=
      mul_nonneg (sub_nonneg.mpr (Binary64.truncate_le hq)) (by norm_num)
    unfold ofSecondsReal? at h
    dsimp only at h
    split at h
    · cases h
    · split at h
      · next fraction hround =>
        have hpicos :=
          Binary64.roundHalfAway_nonneg (Binary64.nonNeg_round hfraction fraction hround)
        cases h
        exact ⟨_, add_nonneg (mul_nonneg hwhole (by decide)) hpicos, rfl⟩
      · cases h
  | nan => cases h
  | infinite => cases h

protected theorem add_comm (a b : Duration) : a + b = b + a := by
  change ofTotal (a.total + b.total) = ofTotal (b.total + a.total)
  rw [Int.add_comm]

/-- The sum of spans is stored for the sum of their totals. -/
theorem exists_foldl_eq {ds : List Duration} (h : ∀ d ∈ ds, d.OfNonNeg) :
    ∃ n : Int, 0 ≤ n ∧ ∀ k : Int, 0 ≤ k → ds.foldl (· + ·) (ofTotal k) = ofTotal (k + n) := by
  induction ds with
  | nil => exact ⟨0, le_rfl, fun k _ => by rw [add_zero]; rfl⟩
  | cons d ds ih =>
    obtain ⟨⟨m, hm, rfl⟩, hds⟩ := List.forall_mem_cons.mp h
    obtain ⟨n, hn, hfold⟩ := ih hds
    refine ⟨m + n, add_nonneg hm hn, fun k hk => ?_⟩
    rw [List.foldl_cons, ofTotal_add_ofTotal hk hm, hfold _ (add_nonneg hk hm), add_assoc]

end Duration

namespace Timing

open Text

variable {cs as bs blanks : List Char} {ds es : List Duration}

section Adding

theorem nonNeg_seconds {q : Rat} {word : List Char} {length : Int} (hq : 0 ≤ q)
    (hword : Names word length) : (seconds q length).NonNeg := by
  have hlengths : ∀ unit ∈ units, 0 ≤ unit.2 := by decide +kernel
  obtain ⟨unit, hunit, rfl, -⟩ := hword
  have hlength : (0 : Rat) ≤ unit.2 := by exact_mod_cast hlengths unit hunit
  exact ((Binary64.nonNeg_round hq).scale hlength).scale (by decide)

theorem Spells.ofNonNeg (h : Spells cs ds) : ∀ d ∈ ds, d.OfNonNeg := by
  induction h with
  | done => simp
  | group hlead hcount hgap hletters hmaximal hword hspan hrest ih =>
    have hd := Duration.ofNonNeg_of_ofSecondsReal? (nonNeg_seconds hcount.nonneg hword) hspan
    exact List.forall_mem_cons.mpr ⟨hd, ih⟩

theorem Spells.blanks_append (h : Spells cs ds) (hblanks : ∀ c ∈ blanks, isAsciiBlank c) :
    Spells (blanks ++ cs) ds := by
  cases h with
  | done hcs => exact .done (List.forall_mem_append.mpr ⟨hblanks, hcs⟩)
  | group hlead hcount hgap hletters hmaximal hword hspan hrest =>
    simp only [← List.append_assoc]
    exact .group (List.forall_mem_append.mpr ⟨hblanks, hlead⟩) hcount hgap hletters hmaximal hword
      hspan hrest

/-- A blank between them keeps the last unit of the first text apart from the second. -/
theorem Spells.append (ha : Spells as ds) (hb : Spells bs es) :
    Spells (as ++ ' ' :: bs) (ds ++ es) := by
  have hspaced : Spells (' ' :: bs) es := by
    have hspace : ∀ c ∈ [' '], isAsciiBlank c := List.forall_mem_singleton.mpr (by decide)
    exact hb.blanks_append hspace
  induction ha with
  | done hblanks => exact hspaced.blanks_append hblanks
  | @group lead count gap word rest _ _ _ _ hlead hcount hgap hletters hmaximal hword hspan hrest ih =>
    have hends : ∀ c ∈ (rest ++ ' ' :: bs).head?, ¬ c.isAlpha := by
      cases rest with
      | nil =>
        rintro c ⟨⟩
        decide
      | cons r rest => simpa using hmaximal
    rw [List.append_assoc _ rest]
    exact .group hlead hcount hgap hletters hends hword hspan ih

theorem readWords?_append {x y : Duration} (ha : readWords? as = some x)
    (hb : readWords? bs = some y) : readWords? (as ++ ' ' :: bs) = some (x + y) := by
  obtain ⟨ds, hne, hds, rfl⟩ := readWords?_eq_some_iff.mp ha
  obtain ⟨es, -, hes, rfl⟩ := readWords?_eq_some_iff.mp hb
  refine readWords?_eq_some_iff.mpr ⟨ds ++ es, by simp [hne], hds.append hes, ?_⟩
  obtain ⟨m, hm, hfirst⟩ := Duration.exists_foldl_eq hds.ofNonNeg
  obtain ⟨n, hn, hsecond⟩ := Duration.exists_foldl_eq hes.ofNonNeg
  have hzero : Duration.zero = .ofTotal 0 := by decide
  rw [List.foldl_append, hzero, hfirst 0 le_rfl, hsecond 0 le_rfl, zero_add, zero_add,
    hsecond m hm, Duration.ofTotal_add_ofTotal hm hn]

end Adding

section Scanning

/-- Reads the groups from a position among the bytes on, when `groups` of them have been read and sum
up to `total`. The outer `none` stands for a slice that would cut a character, and for a group that
would leave the reader where it is. -/
def scan (cs : List Char) (pos : Nat) (total : Duration) (groups : Nat) : Option (Option Duration) :=
  let start := skip (onByte TokenKind.blank.has) (bytes cs) pos
  if start = (bytes cs).length then some (if groups = 0 then none else some total)
  else
    let stop := skip (onByte TokenKind.number.has) (bytes cs) start
    let first := skip (onByte TokenKind.blank.has) (bytes cs) stop
    let last := skip (onByte TokenKind.word.has) (bytes cs) first
    match slice? cs start stop, slice? cs first last with
    | some figures, some word =>
      match span? figures word with
      | some d =>
        if h : pos < last ∧ last ≤ (bytes cs).length then scan cs last (total + d) (groups + 1)
        else none
      | none => some none
    | _, _ => none
termination_by (bytes cs).length - pos
decreasing_by exact Nat.sub_lt_sub_left (Nat.lt_of_lt_of_le h.1 h.2) h.1

theorem asciiKind_has (kind : TokenKind) : AsciiKind kind.has := by
  intro c hc
  cases kind with
  | number =>
    rw [has_number, decide_eq_true_iff, isFigure_iff] at hc
    omega
  | word =>
    rw [has_word, isAlpha_iff] at hc
    omega
  | blank =>
    rw [has_blank, isAsciiBlank_iff] at hc
    omega

theorem skip_run {kind : TokenKind} {run rest : List Char} (front : List Char)
    (hrun : ∀ c ∈ run, kind.has c) (hrest : ∀ c ∈ rest.head?, ¬ kind.has c) :
    skip (onByte kind.has) (bytes (front ++ (run ++ rest))) (bytes front).length =
      (bytes (front ++ run)).length := by
  have htake : rest.takeWhile kind.has = [] := by
    cases rest with
    | nil => rfl
    | cons c rest => exact List.takeWhile_cons_of_neg (hrest c rfl)
  rw [skip_bytes (asciiKind_has kind), List.takeWhile_append_of_pos hrun, htake, List.append_nil]

namespace Cut

variable (k : Cut cs) (front : List Char)

theorem skip_lead : skip (onByte TokenKind.blank.has) (bytes (front ++ cs)) (bytes front).length =
    (bytes (front ++ k.lead)).length := by
  conv_lhs => rw [k.eq_start]
  exact skip_run front k.lead_has k.lead_ends

theorem append_eq : front ++ cs =
    front ++ k.lead ++ (k.figures ++ (k.gap ++ (k.word ++ k.rest))) := by
  conv_lhs => rw [k.eq]
  simp only [List.append_assoc]

theorem skip_figures : skip (onByte TokenKind.number.has) (bytes (front ++ cs))
    (bytes (front ++ k.lead)).length = (bytes (front ++ k.lead ++ k.figures)).length := by
  rw [k.append_eq]
  exact skip_run (front ++ k.lead) k.figures_has k.figures_ends

theorem skip_gap : skip (onByte TokenKind.blank.has) (bytes (front ++ cs))
    (bytes (front ++ k.lead ++ k.figures)).length =
      (bytes (front ++ k.lead ++ k.figures ++ k.gap)).length := by
  rw [k.append_eq, ← List.append_assoc _ k.figures]
  exact skip_run (front ++ k.lead ++ k.figures) k.gap_has k.gap_ends

theorem skip_word : skip (onByte TokenKind.word.has) (bytes (front ++ cs))
    (bytes (front ++ k.lead ++ k.figures ++ k.gap)).length =
      (bytes (front ++ k.lead ++ k.figures ++ k.gap ++ k.word)).length := by
  rw [k.append_eq, ← List.append_assoc _ k.figures, ← List.append_assoc _ k.gap]
  exact skip_run (front ++ k.lead ++ k.figures ++ k.gap) k.word_has k.word_ends

theorem slice?_figures : slice? (front ++ cs) (bytes (front ++ k.lead)).length
    (bytes (front ++ k.lead ++ k.figures)).length = some k.figures := by
  rw [k.append_eq, ← List.append_assoc _ k.figures]
  exact slice?_append _ _ _

theorem slice?_word : slice? (front ++ cs) (bytes (front ++ k.lead ++ k.figures ++ k.gap)).length
    (bytes (front ++ k.lead ++ k.figures ++ k.gap ++ k.word)).length = some k.word := by
  rw [k.append_eq, ← List.append_assoc _ k.figures, ← List.append_assoc _ k.gap,
    ← List.append_assoc _ k.word]
  exact slice?_append _ _ _

/-- The blanks go up to the end just if nothing comes behind them. -/
theorem lead_reaches_iff :
    (bytes (front ++ k.lead)).length = (bytes (front ++ cs)).length ↔ k.start = [] := by
  have hcs : front ++ cs = front ++ k.lead ++ k.start := by
    rw [List.append_assoc, ← k.eq_start]
  rw [hcs, bytes_append _ k.start, List.length_append, ← length_bytes_eq_zero_iff]
  omega

theorem start_eq_nil_iff : k.start = [] ↔ cs.all TokenKind.blank.has := by
  rw [List.all_eq_true]
  constructor
  · intro hstart
    exact k.eq_lead hstart ▸ k.lead_has
  · intro hblanks
    rw [List.eq_nil_iff_forall_not_mem]
    intro c hc
    obtain ⟨d, ds, hds⟩ := List.exists_cons_of_ne_nil (List.ne_nil_of_mem hc)
    refine k.lead_ends d ?_ (hblanks d ?_)
    · rw [start] at hds
      simp [hds]
    · rw [k.eq_start, hds]
      simp

theorem append_eq_rest :
    front ++ cs = front ++ k.lead ++ k.figures ++ k.gap ++ k.word ++ k.rest := by
  rw [k.append_eq]
  simp only [List.append_assoc]

/-- A group leads on, and not beyond the end. -/
theorem moves_on (hword : k.word ≠ []) :
    (bytes front).length < (bytes (front ++ k.lead ++ k.figures ++ k.gap ++ k.word)).length ∧
      (bytes (front ++ k.lead ++ k.figures ++ k.gap ++ k.word)).length ≤
        (bytes (front ++ cs)).length := by
  have hbytes := Nat.pos_of_ne_zero (mt length_bytes_eq_zero_iff.mp hword)
  rw [k.append_eq_rest]
  simp only [bytes_append, List.length_append]
  omega

end Cut

/-- From every place between characters the reader comes to the sum of what follows. -/
theorem scan_append (front cs : List Char) (total : Duration) (groups : Nat) :
    scan (front ++ cs) (bytes front).length total groups =
      some (if groups = 0 ∧ cs.all TokenKind.blank.has then none else sum? total cs) := by
  induction hlength : cs.length using Nat.strongRecOn generalizing front cs total groups with
  | ind n ih =>
    obtain ⟨k⟩ := exists_cut cs
    rw [scan]
    dsimp only
    rw [k.skip_lead, k.skip_figures, k.skip_gap, k.skip_word, k.slice?_figures, k.slice?_word]
    have hblanks := k.start_eq_nil_iff
    by_cases hstart : k.start = []
    · rw [if_pos ((k.lead_reaches_iff front).mpr hstart), k.sum?_eq_some total hstart]
      simp [← hblanks, hstart]
    · rw [if_neg (mt (k.lead_reaches_iff front).mp hstart),
        if_neg (fun h => hstart (hblanks.mpr h.2))]
      dsimp only
      by_cases hword : k.word = []
      · rw [hword, span?_nil, k.sum?_eq_none total hstart hword]
      · rw [k.sum?_eq_of_word total hword]
        cases span? k.figures k.word with
        | none => rfl
        | some d =>
          dsimp only
          rw [dif_pos (k.moves_on front hword), k.append_eq_rest,
            ih _ (hlength ▸ k.length_rest_lt hword) _ _ _ _ rfl, if_neg (by simp),
            Option.bind_some]

/-- The reader gets through every text. -/
theorem scan_eq (cs : List Char) : scan cs 0 .zero 0 = some (readWords? cs) := by
  rw [readWords?_eq]
  exact (scan_append [] cs .zero 0).trans (by simp)

end Scanning

/-- A text is read through. It has a sum if it is made of groups, and that is the sum of their spans,
one after the other. With another such text and a blank between them, in either order, it stands for
the sum of both. -/
structure ReadsGroups (cs : List Char) : Prop where
  scanned : scan cs 0 .zero 0 = some (readWords? cs)
  read_iff {total : Duration} : readWords? cs = some total ↔
    ∃ ds, ds ≠ [] ∧ Spells cs ds ∧ total = ds.foldl (· + ·) .zero
  before {bs : List Char} {x y : Duration} : readWords? cs = some x → readWords? bs = some y →
    readWords? (cs ++ ' ' :: bs) = some (x + y)
  after {bs : List Char} {x y : Duration} : readWords? cs = some x → readWords? bs = some y →
    readWords? (bs ++ ' ' :: cs) = some (x + y)

theorem reads_groups (cs : List Char) : ReadsGroups cs where
  scanned := scan_eq cs
  read_iff := readWords?_eq_some_iff
  before := readWords?_append
  after hx hy := by rw [Duration.add_comm, readWords?_append hy hx]

example : readWords? "2hours3 min".toList = some (.ofSeconds 7380) := by decide +kernel

end Timing
end Timekeeping
