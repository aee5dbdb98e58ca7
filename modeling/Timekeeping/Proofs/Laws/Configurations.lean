import Timekeeping.Config.Variables
import Timekeeping.Proofs.Json.Records
import Timekeeping.Proofs.State.Changes
import Timekeeping.Script.Session

/-!
Settings come out of every channel as they were put in. What is read from JSON, read from variables or
built step by step is checked on the way, so there are no invalid settings behind a reader or in a
scheduler. And all valid settings can be given both ways: as the JSON that they are written as, and by
variables, of which those may be left out that would say what holds by default.
-/
namespace Timekeeping

open Text

namespace Number

variable {bound value : Nat} {cs : List Char}

theorem readDigits_of_digits (hcs : Digits cs)
    (h : value * 10 ^ cs.length + ofDigits cs ≤ bound) :
    readDigits bound value cs = .ok (value * 10 ^ cs.length + ofDigits cs) := by
  induction cs generalizing value with
  | nil => simp [readDigits, ofDigits]
  | cons c cs ih =>
    obtain ⟨hc, hcs⟩ := List.forall_mem_cons.mp hcs
    have hdigit := digit?_of_isDigit hc
    have hsum : value * 10 ^ (c :: cs).length + ofDigits (c :: cs) =
        (value * 10 + (c.toNat - 48)) * 10 ^ cs.length + ofDigits cs := by
      have hcons := ofDigits_append [c] cs
      have hfirst : ofDigits [c] = c.toNat - 48 := by simp [ofDigits, hdigit]
      rw [List.singleton_append, hfirst] at hcons
      rw [hcons, List.length_cons, pow_succ]
      ring
    rw [hsum] at h ⊢
    have hle : value * 10 + (c.toNat - 48) ≤ bound :=
      (Nat.le_mul_of_pos_right _ (Nat.pow_pos (by decide))).trans ((Nat.le_add_right _ _).trans h)
    rw [readDigits, hdigit]
    dsimp only
    rw [if_neg (Nat.not_lt.mpr hle), ih hcs h]

/-- A number within the bound reads back. -/
theorem readNatural_toDigits {n : Nat} (h : n ≤ bound) :
    readNatural bound (Nat.toDigits 10 n) = .ok n := by
  have hread : readDigits bound 0 (Nat.toDigits 10 n) = .ok (0 * _ + ofDigits _) :=
    readDigits_of_digits (digits_toDigits n) (by rw [ofDigits_toDigits]; omega)
  rw [ofDigits_toDigits, Nat.zero_mul, Nat.zero_add] at hread
  obtain ⟨d, ds, hdigits, hd⟩ := exists_toDigits_eq_cons n
  rw [hdigits] at hread ⊢
  have hplus : d ≠ '+' := by
    rintro rfl
    exact absurd hd (by decide)
  unfold readNatural
  split
  · next heq => cases heq
  · next heq => exact absurd (List.cons.inj heq).1 hplus
  · next heq => exact absurd (List.cons.inj heq).1 hplus
  · exact hread

end Number

namespace Config

variable {c c' : Config} {lookup : String → Option String}

theorem check_eq_ok_iff : c.check = .ok c' ↔ c.Valid ∧ c' = c := by
  rw [← fault?_eq_none_iff]
  unfold check
  cases c.fault? <;> simp [eq_comm]

section Json

theorem toJson_plain (c : Config) : c.toJson.Plain := by
  have hrepeats : (Json.orNull (fun n : UInt32 => .integer n.toNat) c.maxRepeats).Plain := by
    cases c.maxRepeats with
    | none => exact .null
    | some n => exact .integer n.toNat
  exact .record (by simp [hrepeats, Json.Plain.integer, Json.Plain.bool])

theorem repeats?_orNull (limit : Option UInt32) :
    repeats? (Json.orNull (fun n : UInt32 => .integer n.toNat) limit) = some limit := by
  cases limit with
  | none => rfl
  | some n =>
    change (Json.uint32? (.integer n.toNat)).map some = _
    rw [Json.uint32?_integer]
    rfl

theorem ofJson?_toJson (c : Config) : ofJson? c.toJson = some c := by
  have hfields : c.toJson.fields? fieldNames =
      some [some (Json.orNull (fun n : UInt32 => .integer n.toNat) c.maxRepeats),
        some (.integer c.historyDepth.toNat), some (.integer c.maxPollMillis.toNat),
        some (.bool c.catchPanics)] :=
    Json.fields?_record (by simp)
  have hbool : Json.bool? (.bool c.catchPanics) = some c.catchPanics := rfl
  unfold ofJson?
  simp only [hfields, orDefault, repeats?_orNull, Json.uint64?_integer, hbool, Option.bind_eq_bind,
    Option.bind_some]

/-- Settings are read from what they are written as, valid or not. -/
theorem readJson?_writeJson (c : Config) : readJson? c.writeJson = some c := by
  unfold readJson? writeJson
  rw [Json.read?_compress c.toJson_plain, Option.bind_eq_bind, Option.bind_some, ofJson?_toJson]

theorem ofJsonText_writeJson (hc : c.Valid) : ofJsonText c.writeJson = .ok c := by
  unfold ofJsonText
  rw [readJson?_writeJson]
  exact check_eq_ok_iff.mpr ⟨hc, rfl⟩

theorem valid_of_ofJsonText {s : String} (h : ofJsonText s = .ok c) : c.Valid := by
  unfold ofJsonText at h
  split at h
  · cases h
  · obtain ⟨hvalid, rfl⟩ := check_eq_ok_iff.mp h
    exact hvalid

end Json

section Variables

/-- The number of repeats in digits, or the word for no limit in any case. -/
def RepeatsText : Option UInt32 → List Char → Prop
  | none, cs => cs.map Char.toLower = ['n', 'o', 'n', 'e']
  | some n, cs => cs = Nat.toDigits 10 n.toNat

def WordText (n : UInt64) (cs : List Char) : Prop := cs = Nat.toDigits 10 n.toNat

def BoolText : Bool → List Char → Prop
  | true, cs => cs = ['t', 'r', 'u', 'e']
  | false, cs => cs = ['f', 'a', 'l', 's', 'e']

/-- A variable is set to a text of the value with blanks around it, or it is not set and the value is
the default. -/
inductive Given {α : Type} (texts : α → List Char → Prop) (standard : α) : Option String → α → Prop
  | left : Given texts standard none standard
  | set {before cs after : List Char} {a : α} (hbefore : Blanks before) (hcs : texts a cs)
    (hafter : Blanks after) : Given texts standard (some (String.ofList (before ++ cs ++ after))) a

/-- The variables give the settings. -/
structure Spelled (lookup : String → Option String) (c : Config) : Prop where
  repeats : Given RepeatsText ({} : Config).maxRepeats (lookup "TIMER_MAX_REPEATS") c.maxRepeats
  depth : Given WordText ({} : Config).historyDepth (lookup "TIMER_HISTORY_DEPTH") c.historyDepth
  poll : Given WordText ({} : Config).maxPollMillis (lookup "TIMER_MAX_POLL_INTERVAL_MS")
    c.maxPollMillis
  catching : Given BoolText ({} : Config).catchPanics (lookup "TIMER_CATCH_PANICS") c.catchPanics

/-- The reader takes the texts of each value, none of which has blanks in it. -/
structure Reads {α : Type} (read : List Char → Except VariableFault α)
    (texts : α → List Char → Prop) : Prop where
  read_eq {a : α} {cs : List Char} : texts a cs → read cs = .ok a
  not_blank {a : α} {cs : List Char} : texts a cs → ∀ c ∈ cs, ¬ isBlank c

variable {α : Type} {texts : α → List Char → Prop} {read : List Char → Except VariableFault α}
  {standard a : α} {name : String}

theorem readVariable_of_given (hread : Reads read texts) (h : Given texts standard (lookup name) a) :
    readVariable lookup name read standard = .ok a := by
  unfold readVariable
  cases hvalue : lookup name with
  | none =>
    rw [hvalue] at h
    cases h
    rfl
  | some value =>
    rw [hvalue] at h
    cases h with
    | set hbefore hcs hafter =>
      dsimp only
      rw [String.toList_ofList, trim_append_append _ hbefore hafter,
        trim_of_forall (hread.not_blank hcs), hread.read_eq hcs]

theorem readNatural_toDigits {bound n : Nat} (h : n ≤ bound) :
    readNatural bound (Nat.toDigits 10 n) = .ok n := by
  unfold readNatural
  rw [Number.readNatural_toDigits h]

theorem reads_repeats : Reads readRepeats RepeatsText where
  read_eq {limit cs} h := by
    cases limit with
    | none => exact if_pos h
    | some n =>
      obtain rfl : cs = Nat.toDigits 10 n.toNat := h
      have hn := n.toNat_lt
      have hword : (Nat.toDigits 10 n.toNat).map Char.toLower ≠ ['n', 'o', 'n', 'e'] := by
        obtain ⟨d, ds, hdigits, hd⟩ := exists_toDigits_eq_cons n.toNat
        rw [hdigits, List.map_cons, toLower_of_isDigit hd]
        rintro heq
        obtain ⟨rfl, -⟩ := List.cons.inj heq
        exact absurd hd (by decide)
      unfold readRepeats
      rw [if_neg hword, readNatural_toDigits (by omega)]
      change Except.ok (some (UInt32.ofNat n.toNat)) = _
      rw [UInt32.ofNat_toNat]
  not_blank {limit cs} h := by
    cases limit with
    | none =>
      intro c hc
      have hlower : c.toLower ∈ ['n', 'o', 'n', 'e'] := h ▸ List.mem_map_of_mem hc
      have hletters : ['n', 'o', 'n', 'e'].all (! isBlank ·) := by decide
      rw [← isBlank_toLower]
      simpa using List.all_eq_true.mp hletters _ hlower
    | some n => exact h ▸ (digits_toDigits n.toNat).not_isBlank

theorem reads_word : Reads readUInt64 WordText where
  read_eq {n cs} h := by
    obtain rfl : cs = Nat.toDigits 10 n.toNat := h
    have hn := n.toNat_lt
    unfold readUInt64
    rw [readNatural_toDigits (by omega)]
    change Except.ok (UInt64.ofNat n.toNat) = _
    rw [UInt64.ofNat_toNat]
  not_blank {n cs} h := h ▸ (digits_toDigits n.toNat).not_isBlank

theorem reads_bool : Reads readBool BoolText where
  read_eq {b cs} h := by cases b <;> cases h <;> rfl
  not_blank {b cs} h := by
    have hall : cs.all (! isBlank ·) := by cases b <;> cases h <;> decide
    simpa using hall

theorem ofVariables_of_spelled (hc : c.Valid) (h : Spelled lookup c) : ofVariables lookup = .ok c := by
  unfold ofVariables
  dsimp only
  rw [readVariable_of_given reads_repeats h.repeats, readVariable_of_given reads_word h.depth,
    readVariable_of_given reads_word h.poll, readVariable_of_given reads_bool h.catching]
  exact check_eq_ok_iff.mpr ⟨hc, rfl⟩

theorem valid_of_ofVariables (h : ofVariables lookup = .ok c) : c.Valid := by
  unfold ofVariables at h
  obtain ⟨repeats, -, h⟩ := Except.exists_of_bind_eq_ok h
  obtain ⟨depth, -, h⟩ := Except.exists_of_bind_eq_ok h
  obtain ⟨poll, -, h⟩ := Except.exists_of_bind_eq_ok h
  obtain ⟨catching, -, h⟩ := Except.exists_of_bind_eq_ok h
  obtain ⟨hvalid, rfl⟩ := check_eq_ok_iff.mp h
  exact hvalid

end Variables

section Schedulers

theorem build_eq_ok_iff {offset : Int} {S : Scheduler} :
    Scheduler.build c offset = .ok S ↔ c.Valid ∧ S = .ofConfig c offset := by
  unfold Scheduler.build
  cases hcheck : c.check with
  | ok c' =>
    obtain ⟨hvalid, rfl⟩ := check_eq_ok_iff.mp hcheck
    simp [hvalid, eq_comm]
  | error fault =>
    have hinvalid : ¬ c.Valid := by
      intro hvalid
      rw [check_eq_ok_iff.mpr ⟨hvalid, rfl⟩] at hcheck
      cases hcheck
    simp [hinvalid]

/-- The settings of a scheduler are those that its steps came to, and they were checked. -/
theorem exists_assemble_of_built {steps : List BuildStep} {offset : Int} {S : Scheduler}
    (h : (Script.SchedulerSource.built steps).scheduler offset = .ok S) :
    assemble steps = .ok S.config ∧ S.config.Valid := by
  cases hassemble : assemble steps with
  | ok config =>
    simp only [Script.SchedulerSource.scheduler, hassemble] at h
    obtain ⟨hvalid, rfl⟩ := build_eq_ok_iff.mp h
    exact ⟨rfl, hvalid⟩
  | error fault =>
    simp only [Script.SchedulerSource.scheduler, hassemble] at h
    cases h

end Schedulers

/-- Only valid settings come out of the channels, and all of them can be put in. Steps of a build may
set any settings on the way, valid or not. -/
structure ChannelsAgree : Prop where
  checked {c : Config} : c.fault? = none ↔ c.Valid
  of_json {s : String} {c : Config} : ofJsonText s = .ok c → c.Valid
  of_variables {lookup : String → Option String} {c : Config} : ofVariables lookup = .ok c → c.Valid
  of_steps {steps : List BuildStep} {offset : Int} {S : Scheduler} :
    (Script.SchedulerSource.built steps).scheduler offset = .ok S →
      assemble steps = .ok S.config ∧ S.config.Valid
  built {c : Config} {offset : Int} {S : Scheduler} :
    Scheduler.build c offset = .ok S ↔ c.Valid ∧ S = .ofConfig c offset
  any_step {c c' : Config} : c.apply (.json c'.writeJson) = .ok c'
  to_json {c : Config} : c.Valid → ofJsonText c.writeJson = .ok c
  to_variables {lookup : String → Option String} {c : Config} :
    c.Valid → Spelled lookup c → ofVariables lookup = .ok c

theorem channels_agree : ChannelsAgree where
  checked := fault?_eq_none_iff _
  of_json := valid_of_ofJsonText
  of_variables := valid_of_ofVariables
  of_steps := exists_assemble_of_built
  built := build_eq_ok_iff
  any_step {_ c'} := by rw [apply, readJson?_writeJson]
  to_json := ofJsonText_writeJson
  to_variables := ofVariables_of_spelled

end Config
end Timekeeping
