import Timekeeping.Json.Reader
import Timekeeping.Json.Writer
import Timekeeping.Proofs.Text.Digits
import Mathlib.Data.List.TakeWhile

/-!
JSON text reads back. A value whose strings have text and whose numbers are integers is read from what
it is written as, and from no less than that, whatever follows, unless it is a number and what follows
goes on with it.
-/
namespace Timekeeping.Json

open Text

/-- A value that has a written form of its own. -/
inductive Plain : Json → Prop
  | null : Plain null
  | bool (b : Bool) : Plain (bool b)
  | integer (n : Int) : Plain (integer n)
  | text (s : String) : Plain (text s)
  | array {items : List Json} (h : ∀ item ∈ items, Plain item) : Plain (array items)
  | object {members : List (Option String × Json)}
      (hnames : ∀ member ∈ members, member.1.isSome) (hvalues : ∀ member ∈ members, Plain member.2) :
    Plain (object members)

/-- The text does not go on with a number that stands before it. -/
def EndsNumber (rest : List Char) : Prop :=
  ∀ c ∈ rest.head?, ¬ isDigit c ∧ c ≠ '.' ∧ c ≠ 'e' ∧ c ≠ 'E'

variable {c : Char} {cs rest run : List Char}

theorem skipSpace_cons (h : ¬ isSpace c) (cs : List Char) : skipSpace (c :: cs) = c :: cs :=
  List.dropWhile_cons_of_neg h

section Strings

theorem hexPair_of_lt {n : Nat} (h : n < 32) :
    hexPair n = [(n / 16).digitChar, (n % 16).digitChar] := by
  interval_cases n <;> rfl

theorem hexDigit?_digitChar {n : Nat} (h : n < 16) : hexDigit? n.digitChar = some n := by
  interval_cases n <;> rfl

theorem readPieces_escape (code : Char) (h : escaped? code = some c) (hcode : code ≠ 'u')
    (rest : List Char) :
    readPieces ('\\' :: code :: rest) = (readPieces rest).map fun p => (.char c :: p.1, p.2) := by
  rw [readPieces]
  · rw [h]
    cases readPieces rest <;> rfl
  · intro _ _ _ _ _ hu _
    exact hcode hu

theorem readPieces_control (h : c.toNat < 32) (rest : List Char) :
    readPieces ('\\' :: 'u' :: '0' :: '0' :: (hexPair c.toNat ++ rest)) =
      (readPieces rest).map fun p => (.char c :: p.1, p.2) := by
  have hcode : Piece.ofCode (0 * 4096 + 0 * 256 + c.toNat / 16 * 16 + c.toNat % 16) = .char c := by
    have hsum : 0 * 4096 + 0 * 256 + c.toNat / 16 * 16 + c.toNat % 16 = c.toNat := by omega
    rw [hsum, Piece.ofCode, if_neg (by omega), Char.ofNat_toNat]
  have hzero : hexDigit? '0' = some 0 := rfl
  rw [hexPair_of_lt h, List.cons_append, List.cons_append, List.nil_append, readPieces]
  simp only [hzero, hexDigit?_digitChar (show c.toNat / 16 < 16 by omega),
    hexDigit?_digitChar (show c.toNat % 16 < 16 by omega), Option.bind_eq_bind, Option.bind_some, hcode]
  cases readPieces rest <;> rfl

theorem readPieces_escapeChar (c : Char) (rest : List Char) :
    readPieces (escapeChar c ++ rest) = (readPieces rest).map fun p => (.char c :: p.1, p.2) := by
  unfold escapeChar
  split_ifs with hquote hslash hback hform hline hreturn htab hcontrol
  · exact readPieces_escape '"' (by rw [hquote]; rfl) (by decide) rest
  · exact readPieces_escape '\\' (by rw [hslash]; rfl) (by decide) rest
  · exact readPieces_escape 'b' (by rw [hback]; rfl) (by decide) rest
  · exact readPieces_escape 'f' (by rw [hform]; rfl) (by decide) rest
  · exact readPieces_escape 'n' (by rw [hline]; rfl) (by decide) rest
  · exact readPieces_escape 'r' (by rw [hreturn]; rfl) (by decide) rest
  · exact readPieces_escape 't' (by rw [htab]; rfl) (by decide) rest
  · rw [List.append_assoc]
    exact readPieces_control hcontrol rest
  · rw [List.singleton_append, readPieces, if_neg (by simp [hcontrol, hslash])]
    · cases readPieces rest <;> rfl
    · exact hquote
    · intro _ _ _ _ _ hc _
      exact hslash hc
    · intro _ _ hc _
      exact hslash hc

theorem readPieces_flatMap (cs rest : List Char) :
    readPieces (cs.flatMap escapeChar ++ '"' :: rest) = some (cs.map .char, rest) := by
  induction cs with
  | nil => simp [readPieces]
  | cons c cs ih =>
    rw [List.flatMap_cons, List.append_assoc, readPieces_escapeChar, ih]
    rfl

theorem pair?_map_char (cs : List Char) : pair? (cs.map .char) = some cs := by
  induction cs with
  | nil => rfl
  | cons c cs ih => rw [List.map_cons, pair?, ih, Option.map_some]

/-- A string reads back after its opening quote. -/
theorem readString_flatMap (s : String) (rest : List Char) :
    readString (s.toList.flatMap escapeChar ++ '"' :: rest) = some (some s, rest) := by
  unfold readString
  rw [readPieces_flatMap, Option.map_some]
  dsimp only
  rw [pair?_map_char, Option.map_some, String.ofList_toList]

end Strings

section Numbers

theorem EndsNumber.takeWhile (h : EndsNumber rest) (hrun : Digits run) :
    (run ++ rest).takeWhile isDigit = run ∧ (run ++ rest).dropWhile isDigit = rest := by
  rw [List.takeWhile_append_of_pos hrun, List.dropWhile_append_of_pos hrun]
  cases rest with
  | nil => simp
  | cons c cs =>
    have hc := (h c rfl).1
    simp [hc]

theorem readRun_append (hne : run ≠ []) (hrun : Digits run) (h : EndsNumber rest) :
    readRun (run ++ rest) = some (run, rest) := by
  obtain ⟨htake, hdrop⟩ := h.takeWhile hrun
  unfold readRun
  rw [htake, hdrop]
  simp [hne]

theorem readWhole_append (n : Nat) (h : EndsNumber rest) :
    readWhole (Nat.toDigits 10 n ++ rest) = some (Nat.toDigits 10 n, rest) := by
  by_cases hn : n = 0
  · subst hn
    rw [Nat.toDigits_zero, List.singleton_append, readWhole, if_neg]
    cases rest with
    | nil => simp
    | cons c cs => simpa using (h c rfl).1
  · have hrun := readRun_append Nat.toDigits_ne_nil (digits_toDigits n) h
    unfold readWhole
    split
    · next cs hcs =>
      obtain ⟨d, ds, hdigits, -⟩ := exists_toDigits_eq_cons n
      rw [hdigits, List.cons_append] at hcs
      obtain ⟨rfl, -⟩ := List.cons.inj hcs
      exact absurd (eq_zero_of_toDigits_eq_cons hdigits) hn
    · exact hrun

theorem readPlaces_of_ends (h : EndsNumber rest) : readPlaces rest = some ([], rest) := by
  unfold readPlaces
  split
  · exact absurd rfl (h '.' rfl).2.1
  · rfl

theorem readPower_of_ends (h : EndsNumber rest) : readPower rest = some (none, rest) := by
  cases rest with
  | nil => rfl
  | cons c cs =>
    obtain ⟨-, -, he⟩ := h c rfl
    unfold readPower
    exact if_neg (by simpa using he)

theorem readSize_append (negative : Bool) (n : Nat) (hzero : negative = true → n ≠ 0)
    (h : EndsNumber rest) :
    readSize negative (Nat.toDigits 10 n ++ rest) =
      some (integer (if negative then -n else n), rest) := by
  unfold readSize
  simp only [readWhole_append n h, readPlaces_of_ends h, readPower_of_ends h, Option.bind_eq_bind,
    Option.bind_some, List.append_nil, ofDigits_toDigits]
  rw [if_pos (by simpa using hzero)]

/-- An integer reads back. Zero has no sign. -/
theorem readNumber_writeInteger (n : Int) (h : EndsNumber rest) :
    readNumber (writeInteger n ++ rest) = some (integer n, rest) := by
  unfold writeInteger
  split
  · next hn =>
    rw [List.singleton_append, List.cons_append, readNumber, readSize_append true _ _ h, if_pos rfl]
    · congr
      omega
    · omega
  · next hn =>
    have hread := readSize_append false n.natAbs nofun h
    have hvalue : (n.natAbs : Int) = n := by omega
    rw [if_neg Bool.false_ne_true, hvalue] at hread
    obtain ⟨d, ds, hdigits, hd⟩ := exists_toDigits_eq_cons n.natAbs
    rw [List.nil_append]
    unfold readNumber
    split
    · next cs hcs =>
      rw [hdigits, List.cons_append] at hcs
      obtain ⟨rfl, -⟩ := List.cons.inj hcs
      exact absurd hd (by decide)
    · exact hread

end Numbers

section Values

variable {j : Json} {steps : Nat}

/-- Whether a value whose text starts with this character is an integer. -/
def StartsInteger (c : Char) : Prop := c = '-' ∨ isDigit c

instance (c : Char) : Decidable (StartsInteger c) := inferInstanceAs (Decidable (_ ∨ _))

theorem exists_writeInteger_eq_cons (n : Int) :
    ∃ c cs, writeInteger n = c :: cs ∧ StartsInteger c := by
  unfold writeInteger
  split
  · exact ⟨'-', Nat.toDigits 10 n.natAbs, rfl, .inl rfl⟩
  · obtain ⟨d, ds, hdigits, hd⟩ := exists_toDigits_eq_cons n.natAbs
    exact ⟨d, ds, hdigits, .inr hd⟩

theorem not_isSpace_of_startsInteger (h : StartsInteger c) : ¬ isSpace c := by
  intro hspace
  simp only [isSpace, Bool.or_eq_true, beq_iff_eq] at hspace
  rcases hspace with ((rfl | rfl) | rfl) | rfl <;> exact absurd h (by decide)

theorem readValue_of_startsInteger (h : StartsInteger c) (cs : List Char) :
    readValue (steps + 1) (c :: cs) = readNumber (c :: cs) := by
  unfold readValue
  rw [skipSpace_cons (not_isSpace_of_startsInteger h)]
  split
  case h_7 => rfl
  all_goals
    next heq => exact absurd ((List.cons.inj heq).1 ▸ h) (by decide)

/-- The first character of a value is no blank and does not close an array. -/
theorem Plain.exists_write_eq_cons (h : Plain j) :
    ∃ c cs, write j = c :: cs ∧ ¬ isSpace c ∧ c ≠ ']' := by
  cases h with
  | null => exact ⟨'n', _, rfl, by decide, by decide⟩
  | bool b => cases b with
    | true => exact ⟨'t', _, rfl, by decide, by decide⟩
    | false => exact ⟨'f', _, rfl, by decide, by decide⟩
  | integer n =>
    obtain ⟨c, cs, hcons, hc⟩ := exists_writeInteger_eq_cons n
    refine ⟨c, cs, by rw [write, hcons], not_isSpace_of_startsInteger hc, ?_⟩
    rintro rfl
    exact absurd hc (by decide)
  | text s => exact ⟨'"', _, rfl, by decide, by decide⟩
  | array items => exact ⟨'[', _, by rw [write], by decide, by decide⟩
  | object members => exact ⟨'\x7b', _, by rw [write], by decide, by decide⟩

theorem writeItems_cons (item : Json) {items : List Json} (hne : items ≠ []) :
    writeItems (item :: items) = write item ++ ',' :: writeItems items := by
  cases items with
  | nil => exact absurd rfl hne
  | cons next rest =>
    rw [writeItems]
    exact hne

theorem writeMembers_cons (name : Option String) (value : Json)
    {members : List (Option String × Json)} (hne : members ≠ []) :
    writeMembers ((name, value) :: members) =
      writeString (name.getD "") ++ ':' :: write value ++ ',' :: writeMembers members := by
  cases members with
  | nil => exact absurd rfl hne
  | cons next rest =>
    rw [writeMembers]
    exact hne

/-- What the three readers make of written text when they have so many steps. -/
structure ReadsBack (steps : Nat) : Prop where
  value {j : Json} {rest : List Char} : j.Plain → EndsNumber rest → (write j).length ≤ steps →
    readValue steps (write j ++ rest) = some (j, rest)
  items {items : List Json} {rest : List Char} : items ≠ [] → (∀ item ∈ items, item.Plain) →
    (writeItems items).length < steps →
    readItems steps (writeItems items ++ ']' :: rest) = some (items, rest)
  members {members : List (Option String × Json)} {rest : List Char} : members ≠ [] →
    (∀ member ∈ members, member.1.isSome) → (∀ member ∈ members, member.2.Plain) →
    (writeMembers members).length < steps →
    readMembers steps (writeMembers members ++ '\x7d' :: rest) = some (members, rest)

theorem exists_writeItems_eq_cons {items : List Json} (hne : items ≠ [])
    (hitems : ∀ item ∈ items, item.Plain) :
    ∃ c cs, writeItems items = c :: cs ∧ ¬ isSpace c ∧ c ≠ ']' := by
  obtain ⟨item, items, rfl⟩ := List.exists_cons_of_ne_nil hne
  obtain ⟨c, cs, hcons, hc⟩ := (hitems item List.mem_cons_self).exists_write_eq_cons
  by_cases hrest : items = []
  · subst hrest
    exact ⟨c, cs, by rw [writeItems, hcons], hc⟩
  · exact ⟨c, cs ++ ',' :: writeItems items, by rw [writeItems_cons item hrest, hcons]; rfl, hc⟩

theorem exists_writeMembers_eq_cons {members : List (Option String × Json)} (hne : members ≠ []) :
    ∃ cs, writeMembers members = '"' :: cs := by
  obtain ⟨⟨name, value⟩, members, rfl⟩ := List.exists_cons_of_ne_nil hne
  by_cases hrest : members = []
  · subst hrest
    exact ⟨_, by rw [writeMembers]; rfl⟩
  · exact ⟨_, by rw [writeMembers_cons name value hrest]; rfl⟩

theorem readValue_items (hspace : ¬ isSpace c) (hclose : c ≠ ']') (cs : List Char) :
    readValue (steps + 1) ('[' :: c :: cs) =
      (readItems steps (c :: cs)).map fun p => (array p.1, p.2) := by
  unfold readValue
  rw [skipSpace_cons (by decide)]
  split
  case h_5 heq =>
    rw [← (List.cons.inj heq).2, skipSpace_cons hspace]
    split
    · next heq => exact absurd (List.cons.inj heq).1 hclose
    · rfl
  case h_7 hother _ => exact absurd rfl (hother _)
  all_goals
    next heq => exact absurd (List.cons.inj heq).1 (by decide)

theorem ReadsBack.value_succ (h : ReadsBack steps) (hj : j.Plain) (hrest : EndsNumber rest)
    (hsteps : (write j).length ≤ steps + 1) :
    readValue (steps + 1) (write j ++ rest) = some (j, rest) := by
  cases hj with
  | null => rfl
  | bool b => cases b <;> rfl
  | integer n =>
    obtain ⟨c, cs, hcons, hc⟩ := exists_writeInteger_eq_cons n
    have hread := readNumber_writeInteger n hrest
    rw [write]
    rw [hcons, List.cons_append] at hread ⊢
    rw [readValue_of_startsInteger hc, hread]
  | text s =>
    have hread := readString_flatMap s rest
    have hwrite : write (text s) ++ rest = '"' :: (s.toList.flatMap escapeChar ++ '"' :: rest) := by
      rw [text, write, writeString, Option.getD_some]
      simp
    rw [hwrite]
    change (readString _).map _ = _
    rw [hread]
    rfl
  | @array items hitems =>
    rw [write, List.cons_append, List.append_assoc, List.singleton_append]
    rw [write, List.length_cons, List.length_append, List.length_singleton] at hsteps
    by_cases hne : items = []
    · subst hne
      rfl
    · obtain ⟨c, cs, hcons, hspace, hclose⟩ := exists_writeItems_eq_cons hne hitems
      have hread : readItems steps (writeItems items ++ ']' :: rest) = some (items, rest) :=
        h.items hne hitems (by omega)
      rw [hcons, List.cons_append] at hread ⊢
      rw [readValue_items hspace hclose, hread]
      rfl
  | @object members hnames hvalues =>
    rw [write, List.cons_append, List.append_assoc, List.singleton_append]
    rw [write, List.length_cons, List.length_append, List.length_singleton] at hsteps
    by_cases hne : members = []
    · subst hne
      rfl
    · obtain ⟨cs, hcons⟩ := exists_writeMembers_eq_cons hne
      have hread : readMembers steps (writeMembers members ++ '\x7d' :: rest) =
          some (members, rest) := h.members hne hnames hvalues (by omega)
      rw [hcons, List.cons_append] at hread ⊢
      change (readMembers steps _).map _ = _
      rw [hread]
      rfl

theorem endsNumber_of_mem (hc : c ∈ [',', ']', '\x7d']) (cs : List Char) : EndsNumber (c :: cs) := by
  rintro d ⟨⟩
  simp only [List.mem_cons, List.not_mem_nil, or_false] at hc
  rcases hc with rfl | rfl | rfl <;> decide

theorem ReadsBack.items_succ (h : ReadsBack steps) {items : List Json} (hne : items ≠ [])
    (hitems : ∀ item ∈ items, item.Plain) (hsteps : (writeItems items).length < steps + 1) :
    readItems (steps + 1) (writeItems items ++ ']' :: rest) = some (items, rest) := by
  obtain ⟨item, items, rfl⟩ := List.exists_cons_of_ne_nil hne
  obtain ⟨hitem, hitems⟩ := List.forall_mem_cons.mp hitems
  by_cases hlast : items = []
  · subst hlast
    rw [writeItems] at hsteps ⊢
    rw [readItems, h.value hitem (endsNumber_of_mem (by simp) rest) (by omega)]
    rfl
  · rw [writeItems_cons item hlast] at hsteps ⊢
    rw [List.length_append, List.length_cons] at hsteps
    rw [List.append_assoc, List.cons_append, readItems,
      h.value hitem (endsNumber_of_mem (by simp) _) (by omega)]
    change (readItems steps _).map _ = _
    rw [h.items hlast hitems (by omega)]
    rfl

/-- What is made of a member depends on what follows it. -/
theorem readMembers_member (name : String) {value : Json} {after : List Char}
    (hread : readValue steps (write value ++ after) = some (value, after)) :
    readMembers (steps + 1) (writeString name ++ ':' :: (write value ++ after)) =
      match skipSpace after with
      | ',' :: rest => (readMembers steps rest).map fun p => ((some name, value) :: p.1, p.2)
      | '\x7d' :: rest => some ([(some name, value)], rest)
      | _ => none := by
  have hstring := readString_flatMap name (':' :: (write value ++ after))
  have hname : writeString name ++ ':' :: (write value ++ after) =
      '"' :: (name.toList.flatMap escapeChar ++ '"' :: ':' :: (write value ++ after)) := by
    simp [writeString]
  rw [hname, readMembers]
  change (readString _).bind _ = _
  rw [hstring, Option.bind_some]
  change (readValue steps _).bind _ = _
  rw [hread]
  rfl

theorem ReadsBack.members_succ (h : ReadsBack steps) {members : List (Option String × Json)}
    (hne : members ≠ []) (hnames : ∀ member ∈ members, member.1.isSome)
    (hvalues : ∀ member ∈ members, member.2.Plain)
    (hsteps : (writeMembers members).length < steps + 1) :
    readMembers (steps + 1) (writeMembers members ++ '\x7d' :: rest) = some (members, rest) := by
  obtain ⟨⟨name, value⟩, members, rfl⟩ := List.exists_cons_of_ne_nil hne
  obtain ⟨hname, htailNames⟩ := List.forall_mem_cons.mp hnames
  obtain ⟨(hvalue : value.Plain), htailValues⟩ := List.forall_mem_cons.mp hvalues
  obtain ⟨name, rfl⟩ := Option.isSome_iff_exists.mp hname
  by_cases hlast : members = []
  · subst hlast
    rw [writeMembers, Option.getD_some] at hsteps ⊢
    rw [List.length_append, List.length_cons] at hsteps
    have hread := h.value hvalue (endsNumber_of_mem (c := '\x7d') (by simp) rest) (by omega)
    rw [List.append_assoc, List.cons_append, readMembers_member name hread]
    rfl
  · rw [writeMembers_cons _ value hlast, Option.getD_some] at hsteps ⊢
    simp only [List.length_append, List.length_cons] at hsteps
    have hread := h.value hvalue (endsNumber_of_mem (c := ',') (by simp)
      (writeMembers members ++ '\x7d' :: rest)) (by omega)
    simp only [List.append_assoc, List.cons_append]
    rw [readMembers_member name hread]
    change (readMembers steps _).map _ = _
    rw [h.members hlast htailNames htailValues (by omega)]
    rfl

theorem readsBack (steps : Nat) : ReadsBack steps := by
  induction steps with
  | zero =>
    refine ⟨?_, fun _ _ h => absurd h (Nat.not_lt_zero _), fun _ _ _ h => absurd h (Nat.not_lt_zero _)⟩
    intro j rest hj _ h
    obtain ⟨c, cs, hcons, -⟩ := hj.exists_write_eq_cons
    simp [hcons] at h
  | succ steps ih => exact ⟨ih.value_succ, ih.items_succ, ih.members_succ⟩

/-- A written value reads back. -/
theorem read?_compress (hj : j.Plain) : read? j.compress = some j := by
  have hread : readValue ((write j).length + 1) (write j ++ []) = some (j, []) :=
    (readsBack _).value hj (by simp [EndsNumber]) (by omega)
  rw [List.append_nil] at hread
  unfold read? compress
  dsimp only
  rw [String.toList_ofList, hread]
  rfl

end Values

end Timekeeping.Json
