import Timekeeping.Proofs.Laws.Refusals
import Timekeeping.Proofs.Time.Calendar
import Timekeeping.Proofs.Time.Multiples

/-!
Which timings have an instant. An hour or a minute that no clock shows, an instant without a date and
multiples of no interval are refused, with an error that says so. One case is not refused but breaks
off the work of the caller: a time of day on clocks whose date lies beyond the calendar, at an instant
whose own date does not. Scheduling goes the same ways, and makes no timer where it breaks off.
-/
namespace Timekeeping

namespace Timing

/-- The faults of a timing for which there is no instant. -/
inductive Faulty (now : Instant) (interval : Option Duration) : Timing → TimingFault → Prop
  | hour {hour minute : UInt8} (hhour : 23 < hour) :
    Faulty now interval (clockTime hour minute) (.clock hour minute .hourOutOfRange)
  | minute {hour minute : UInt8} (hhour : hour ≤ 23) (hminute : 59 < minute) :
    Faulty now interval (clockTime hour minute) (.clock hour minute .minuteOutOfRange)
  | undated {hour minute : UInt8} (hhour : hour ≤ 23) (hminute : minute ≤ 59)
    (hnow : ¬ Civil.Dated now 0) :
    Faulty now interval (clockTime hour minute) (.clock hour minute .nowOutOfRange)
  | interval (hinterval : ∀ i ∈ interval, ¬ i.IsPositive) :
    Faulty now interval nextMultiple .needsInterval

/-- A time of day on clocks that show no date of the calendar, though the instant has one. -/
def LosesDate (timing : Timing) (now : Instant) (offset : Int) : Prop :=
  ∃ hour minute, timing = clockTime hour minute ∧ hour ≤ 23 ∧ minute ≤ 59 ∧
    Civil.Dated now 0 ∧ ¬ Civil.Dated now offset

variable {timing : Timing} {now : Instant} {offset : Int} {interval : Option Duration}
  {fault : TimingFault} {hour minute : UInt8}

theorem resolve_clockTime (now : Instant) (offset : Int) (interval : Option Duration)
    (hour minute : UInt8) :
    (clockTime hour minute).resolve now offset interval =
      if 23 < hour then .error (.fault (.clock hour minute .hourOutOfRange))
      else if 59 < minute then .error (.fault (.clock hour minute .minuteOutOfRange))
      else if ¬ Civil.Dated now 0 then .error (.fault (.clock hour minute .nowOutOfRange))
      else if ¬ Civil.Dated now offset then .error .localDateOutOfRange
      else .ok (Civil.onDay (Civil.localDay now offset) offset hour.toNat minute.toNat) := by
  have hhour : 23 < hour ↔ 23 < hour.toNat := UInt8.lt_iff_toNat_lt
  have hminute : 59 < minute ↔ 59 < minute.toNat := UInt8.lt_iff_toNat_lt
  unfold resolve
  simp only [hhour, hminute, Civil.atClock_eq]
  split_ifs <;> rfl

theorem resolve_nextMultiple_eq_fault_iff :
    nextMultiple.resolve now offset interval = .error (.fault fault) ↔
      fault = .needsInterval ∧ ∀ i ∈ interval, ¬ i.IsPositive := by
  unfold resolve
  cases interval with
  | none => simp [eq_comm]
  | some i =>
    by_cases hpositive : i.IsPositive
    · simp [Instant.nextAligned?_eq hpositive, hpositive]
    · simp [Instant.nextAligned?, hpositive, eq_comm]

theorem resolve_eq_fault_iff :
    timing.resolve now offset interval = .error (.fault fault) ↔ timing.Faulty now interval fault := by
  cases timing with
  | clockTime hour minute =>
    rw [resolve_clockTime]
    constructor
    · intro h
      split_ifs at h with hhour hminute hnow hlocal
      · cases h
        exact .hour hhour
      · cases h
        exact .minute (UInt8.not_lt.mp hhour) hminute
      · cases h
      · cases h
        exact .undated (UInt8.not_lt.mp hhour) (UInt8.not_lt.mp hminute) hnow
    · intro h
      cases h with
      | hour hhour => rw [if_pos hhour]
      | minute hhour hminute => rw [if_neg (UInt8.not_lt.mpr hhour), if_pos hminute]
      | undated hhour hminute hnow =>
        rw [if_neg (UInt8.not_lt.mpr hhour), if_neg (UInt8.not_lt.mpr hminute), if_pos hnow]
  | nextMultiple =>
    rw [resolve_nextMultiple_eq_fault_iff]
    constructor
    · rintro ⟨rfl, hinterval⟩
      exact .interval hinterval
    · intro h
      cases h with
      | interval hinterval => exact ⟨rfl, hinterval⟩
  | _ =>
    refine iff_of_false (by simp [resolve]) ?_
    intro h
    cases h

theorem resolve_eq_localDateOutOfRange_iff :
    timing.resolve now offset interval = .error .localDateOutOfRange ↔
      timing.LosesDate now offset := by
  constructor
  · intro h
    cases timing with
    | clockTime hour minute =>
      rw [resolve_clockTime] at h
      split_ifs at h with hhour hminute hnow hlocal
      · cases h
      · cases h
      · exact ⟨hour, minute, rfl, UInt8.not_lt.mp hhour, UInt8.not_lt.mp hminute, hnow, hlocal⟩
      · cases h
    | nextMultiple =>
      unfold resolve at h
      dsimp only at h
      split at h <;> cases h
    | _ => cases h
  · rintro ⟨hour, minute, rfl, hhour, hminute, hnow, hlocal⟩
    rw [resolve_clockTime, if_neg (UInt8.not_lt.mpr hhour), if_neg (UInt8.not_lt.mpr hminute),
      if_neg (not_not.mpr hnow), if_pos hlocal]

/-- Every timing but those has an instant. -/
theorem exists_resolve_eq_ok_iff : (∃ t, timing.resolve now offset interval = .ok t) ↔
    ¬ timing.LosesDate now offset ∧ ∀ fault, ¬ timing.Faulty now interval fault := by
  constructor
  · rintro ⟨t, hresolve⟩
    constructor
    · intro hloses
      rw [resolve_eq_localDateOutOfRange_iff.mpr hloses] at hresolve
      cases hresolve
    · intro fault hfault
      rw [resolve_eq_fault_iff.mpr hfault] at hresolve
      cases hresolve
  · rintro ⟨hkeeps, hsound⟩
    cases hresolve : timing.resolve now offset interval with
    | ok t => exact ⟨t, rfl⟩
    | error e =>
      cases e with
      | fault fault => exact absurd (resolve_eq_fault_iff.mp hresolve) (hsound fault)
      | localDateOutOfRange => exact absurd (resolve_eq_localDateOutOfRange_iff.mp hresolve) hkeeps

end Timing

open Act

/-- An operation makes a timer or answers that its timing is at fault, unless it breaks off. Only the
first changes anything. -/
structure BreaksOff (call : Caller) (operation : Operation) (r : Run) (lost : Prop) : Prop where
  panics_iff : perform call operation r = .error (.panic localDatePanic) r ↔ lost
  answers : ¬ lost → (∃ r', perform call operation r = .ok (.timer ⟨r.world.created⟩) r') ∨
    ∃ fault, perform call operation r = .ok (.error (.badTiming fault)) r

/-- Where timings have an instant, where they are refused, and where their resolution breaks off. -/
structure ResolvesOrRefuses (call : Caller) (r : Run) : Prop where
  resolved_iff {timing : Timing} {now : Instant} {offset : Int} {interval : Option Duration} :
    (∃ t, timing.resolve now offset interval = .ok t) ↔
      ¬ timing.LosesDate now offset ∧ ∀ fault, ¬ timing.Faulty now interval fault
  refused_iff {timing : Timing} {now : Instant} {offset : Int} {interval : Option Duration}
    {fault : TimingFault} : timing.resolve now offset interval = .error (.fault fault) ↔
      timing.Faulty now interval fault
  lost_iff {timing : Timing} {now : Instant} {offset : Int} {interval : Option Duration} :
    timing.resolve now offset interval = .error .localDateOutOfRange ↔ timing.LosesDate now offset
  prepare : ∀ s timing interval callback args,
    BreaksOff call (.prepare s timing interval callback args) r ((∀ i ∈ interval, i.IsPositive) ∧
      timing.LosesDate r.world.host.now (r.world.scheduler s).offset)
  schedule : ∀ s timing interval callback args,
    BreaksOff call (.schedule s timing interval callback args) r ((∀ i ∈ interval, i.IsPositive) ∧
      timing.LosesDate r.world.host.now (r.world.scheduler s).offset)

variable {call : Caller} {operation : Operation} {r : Run} {s : SchedulerId} {timing : Timing}
  {interval : Option Duration}

/-- An operation that is refused only for its timing or its interval. -/
theorem breaksOff_of_decides (h : Decides call operation r (.timer ⟨r.world.created⟩)
      (r.world.Unschedulable s timing interval) (r.world.Undatable s timing interval))
    (hpanics : r.world.Undatable s timing interval →
      perform call operation r = .error (.panic localDatePanic) r) :
    BreaksOff call operation r ((∀ i ∈ interval, i.IsPositive) ∧
      timing.LosesDate r.world.host.now (r.world.scheduler s).offset) := by
  have hlost : ((∀ i ∈ interval, i.IsPositive) ∧
      timing.LosesDate r.world.host.now (r.world.scheduler s).offset) ↔
        r.world.Undatable s timing interval :=
    and_congr_right fun _ => Timing.resolve_eq_localDateOutOfRange_iff.symm
  rw [hlost]
  refine ⟨⟨fun heq => h.interrupted_iff.mp ⟨_, _, heq⟩, hpanics⟩, ?_⟩
  intro hkeeps
  by_cases hfails : ∃ e, r.world.Unschedulable s timing interval e
  · obtain ⟨e, hfails⟩ := hfails
    right
    rcases hfails with ⟨i, hi, hpositive, rfl⟩ | ⟨hpositive, fault, rfl, hfault⟩
    · exact ⟨_, h.perform_eq (.inl ⟨i, hi, hpositive, rfl⟩)⟩
    · exact ⟨_, h.perform_eq (.inr ⟨hpositive, fault, rfl, hfault⟩)⟩
  · left
    exact h.succeeds_iff.mpr ⟨hkeeps, not_exists.mp hfails⟩

theorem breaksOff_prepare (call : Caller) (r : Run) (s : SchedulerId) (timing : Timing)
    (interval : Option Duration) (callback : Callback) (args : List Json) :
    BreaksOff call (.prepare s timing interval callback args) r ((∀ i ∈ interval, i.IsPositive) ∧
      timing.LosesDate r.world.host.now (r.world.scheduler s).offset) := by
  refine breaksOff_of_decides (decides_prepare call r s timing interval callback args) ?_
  intro hundatable
  have hrefused : r.world.prepare s timing interval callback args = .error .localDateOutOfRange :=
    World.prepare_eq_localDateOutOfRange_iff.mpr hundatable
  rw [perform_of_known _ rfl]
  unfold performKnown
  dsimp only
  rw [Act.world_bind, hrefused]
  rfl

theorem breaksOff_schedule (call : Caller) (r : Run) (s : SchedulerId) (timing : Timing)
    (interval : Option Duration) (callback : Callback) (args : List Json) :
    BreaksOff call (.schedule s timing interval callback args) r ((∀ i ∈ interval, i.IsPositive) ∧
      timing.LosesDate r.world.host.now (r.world.scheduler s).offset) := by
  refine breaksOff_of_decides (decides_schedule call r s timing interval callback args) ?_
  intro hundatable
  have hrefused : r.world.schedule s timing interval callback args =
      .error .localDateOutOfRange :=
    World.schedule_eq_error_iff.mpr (World.prepare_eq_localDateOutOfRange_iff.mpr hundatable)
  rw [perform_of_known _ rfl]
  unfold performKnown
  dsimp only
  rw [Act.world_bind, hrefused]
  rfl

/-- Each timing has an instant, or has a fault, or has lost its date, and what is scheduled by it goes
the same way. -/
theorem resolves_or_refuses (call : Caller) (r : Run) : ResolvesOrRefuses call r where
  resolved_iff := Timing.exists_resolve_eq_ok_iff
  refused_iff := Timing.resolve_eq_fault_iff
  lost_iff := Timing.resolve_eq_localDateOutOfRange_iff
  prepare := breaksOff_prepare call r
  schedule := breaksOff_schedule call r

/-- The last second of the calendar, for clocks that are an hour ahead. -/
def lastSecondRun : Run where
  world := {
    host := { now := .ofSeconds 253402300799 }
    schedulers := Table.set {} 0 (.ofConfig {} 3600) }

/-- Their midnight is on no day of the calendar, and no error says so. -/
theorem lastSecond_breaks_off :
    (Timing.clockTime 0 0).resolve (.ofSeconds 253402300799) 3600 none =
        .error .localDateOutOfRange ∧
      perform (fun _ _ _ _ => return .succeeded) (.schedule 0 (.clockTime 0 0) none ⟨0, none⟩ [])
        lastSecondRun = .error (.panic localDatePanic) lastSecondRun := by
  have hlost : (Timing.clockTime 0 0).LosesDate (.ofSeconds 253402300799) 3600 :=
    ⟨0, 0, rfl, by decide, by decide, by decide, by decide⟩
  refine ⟨Timing.resolve_eq_localDateOutOfRange_iff.mpr hlost, ?_⟩
  exact (breaksOff_schedule _ _ _ _ _ _ _).panics_iff.mpr ⟨nofun, hlost⟩

end Timekeeping
