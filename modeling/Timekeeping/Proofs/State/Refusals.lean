import Timekeeping.Proofs.State.Changes

/-!
When operations on timers are refused, and with which error. A setter and arming look at the
row alone, whose queue comes before all else. Scheduling looks at the interval first and then
at the timing. The row that it makes can always be armed, so it is refused for no other
reason.
-/
namespace Timekeeping

/-- Why a timer that is in no queue cannot be armed for a kind of queue. -/
inductive Timer.Unfit (r : Timer) : QueueKind → TimerFault → Prop
  | noCallback (kind : QueueKind) (hcallback : r.callback = none) : r.Unfit kind .noCallback
  | notOnClock {delay : Duration} (hcallback : r.callback ≠ none)
      (htrigger : r.trigger = some (.afterIdle delay)) : r.Unfit .active .notOnClock
  | noTime (hcallback : r.callback ≠ none) (htrigger : r.trigger = none) : r.Unfit .active .noTime
  | notAfterIdle {time : Instant} (hcallback : r.callback ≠ none)
      (htrigger : r.trigger = some (.onClock time)) : r.Unfit .idle .notAfterIdle
  | noDelay (hcallback : r.callback ≠ none) (htrigger : r.trigger = none) : r.Unfit .idle .noDelay

namespace Timer

variable {r : Timer} {number : Nat} {setting : Setting} {fault : TimerFault} {e : TimerError}

theorem exists_unfit_iff {kind : QueueKind} : (∃ fault, r.Unfit kind fault) ↔
    r.callback = none ∨ r.trigger.map Trigger.kind ≠ some kind := by
  constructor
  · rintro ⟨fault, hunfit⟩
    cases hunfit with
    | noCallback kind hcallback => exact Or.inl hcallback
    | notOnClock _ htrigger => exact Or.inr (by simp [htrigger, Trigger.kind])
    | noTime _ htrigger => exact Or.inr (by simp [htrigger])
    | notAfterIdle _ htrigger => exact Or.inr (by simp [htrigger, Trigger.kind])
    | noDelay _ htrigger => exact Or.inr (by simp [htrigger])
  · intro h
    by_cases hcallback : r.callback = none
    · exact ⟨_, .noCallback kind hcallback⟩
    · have hkind := h.resolve_left hcallback
      cases htrigger : r.trigger with
      | none =>
        cases kind with
        | active => exact ⟨_, .noTime hcallback htrigger⟩
        | idle => exact ⟨_, .noDelay hcallback htrigger⟩
      | some trigger =>
        rw [htrigger] at hkind
        cases trigger with
        | onClock time =>
          cases kind with
          | active => exact absurd rfl hkind
          | idle => exact ⟨_, .notAfterIdle hcallback htrigger⟩
        | afterIdle delay =>
          cases kind with
          | active => exact ⟨_, .notOnClock hcallback htrigger⟩
          | idle => exact absurd rfl hkind

theorem apply_eq_error_iff : r.apply setting = .error fault ↔
    fault = .noTime ∧ r.trigger = none ∧ ∃ delta, setting = .shift delta := by
  cases setting with
  | shift delta =>
    unfold apply
    cases r.trigger with
    | none => simp [eq_comm]
    | some trigger => simp
  | _ => simp [apply]

/-- Only a shift of a timer without a trigger is no setting. -/
theorem adjust_eq_error_iff : r.adjust number setting = .error e ↔
    (e = .alreadyActive number ∧ r.queued ≠ none) ∨
      (e = .invalidTimer number .noTime ∧ r.queued = none ∧ r.trigger = none ∧
        ∃ delta, setting = .shift delta) := by
  have hadjust : r.adjust number setting = .error e ↔
      (e = .alreadyActive number ∧ r.queued ≠ none) ∨
        ∃ fault, e = .invalidTimer number fault ∧ r.queued = none ∧
          r.apply setting = .error fault := by
    unfold adjust
    cases r.queued with
    | some kind => simp [eq_comm]
    | none => cases r.apply setting <;> simp [eq_comm]
  rw [hadjust]
  refine or_congr_right ⟨?_, ?_⟩
  · rintro ⟨fault, rfl, hout, happly⟩
    obtain ⟨rfl, hfacts⟩ := apply_eq_error_iff.mp happly
    exact ⟨rfl, hout, hfacts⟩
  · rintro ⟨rfl, hout, hfacts⟩
    exact ⟨_, rfl, hout, apply_eq_error_iff.mpr ⟨rfl, hfacts⟩⟩

/-- What arming asks of a row before it looks at the trigger. -/
theorem guards_eq_error_iff {α : Type} {found : Except TimerError α} :
    (if r.queued.isSome then .error (.alreadyActive number)
      else if r.callback.isNone then .error (.invalidTimer number .noCallback)
      else found) = .error e ↔
    (e = .alreadyActive number ∧ r.queued ≠ none) ∨
      (e = .invalidTimer number .noCallback ∧ r.queued = none ∧ r.callback = none) ∨
      (r.queued = none ∧ r.callback ≠ none ∧ found = .error e) := by
  cases r.queued <;> cases r.callback <;> simp [eq_comm]

theorem clockKey_eq_error_iff : r.clockKey number = .error e ↔
    (e = .alreadyActive number ∧ r.queued ≠ none) ∨
      ∃ fault, e = .invalidTimer number fault ∧ r.queued = none ∧ r.Unfit .active fault := by
  unfold clockKey
  rw [guards_eq_error_iff]
  refine or_congr_right ⟨?_, ?_⟩
  · rintro (⟨rfl, hout, hcallback⟩ | ⟨hout, hcallback, hfound⟩)
    · exact ⟨_, rfl, hout, .noCallback _ hcallback⟩
    · split at hfound
      · cases hfound
      · rename_i htrigger
        cases hfound
        exact ⟨_, rfl, hout, .notOnClock hcallback htrigger⟩
      · rename_i htrigger
        cases hfound
        exact ⟨_, rfl, hout, .noTime hcallback htrigger⟩
  · rintro ⟨fault, rfl, hout, hunfit⟩
    cases hunfit with
    | noCallback kind hcallback => exact Or.inl ⟨rfl, hout, hcallback⟩
    | notOnClock hcallback htrigger => exact Or.inr ⟨hout, hcallback, by rw [htrigger]⟩
    | noTime hcallback htrigger => exact Or.inr ⟨hout, hcallback, by rw [htrigger]⟩

theorem idleKey_eq_error_iff : r.idleKey number = .error e ↔
    (e = .alreadyActive number ∧ r.queued ≠ none) ∨
      ∃ fault, e = .invalidTimer number fault ∧ r.queued = none ∧ r.Unfit .idle fault := by
  unfold idleKey
  rw [guards_eq_error_iff]
  refine or_congr_right ⟨?_, ?_⟩
  · rintro (⟨rfl, hout, hcallback⟩ | ⟨hout, hcallback, hfound⟩)
    · exact ⟨_, rfl, hout, .noCallback _ hcallback⟩
    · split at hfound
      · cases hfound
      · rename_i htrigger
        cases hfound
        exact ⟨_, rfl, hout, .notAfterIdle hcallback htrigger⟩
      · rename_i htrigger
        cases hfound
        exact ⟨_, rfl, hout, .noDelay hcallback htrigger⟩
  · rintro ⟨fault, rfl, hout, hunfit⟩
    cases hunfit with
    | noCallback kind hcallback => exact Or.inl ⟨rfl, hout, hcallback⟩
    | notAfterIdle hcallback htrigger => exact Or.inr ⟨hout, hcallback, by rw [htrigger]⟩
    | noDelay hcallback htrigger => exact Or.inr ⟨hout, hcallback, by rw [htrigger]⟩

end Timer

/-- The timing has no idle delay that is not negative. -/
theorem Timing.exists_waitWhenIdle_eq_error_iff {timing : Timing} :
    (∃ fault, timing.waitWhenIdle = .error fault) ↔
      ∀ delay ∈ timing.delay?, delay.IsNegative := by
  unfold waitWhenIdle
  cases timing.delay? with
  | none => simp
  | some delay =>
    by_cases hnegative : delay.IsNegative <;> simp [hnegative]

namespace World

variable {w : World} {s : SchedulerId} {t : TimerId} {e : TimerError} {timing : Timing}
  {interval : Option Duration} {callback : Callback} {args : List Json}

theorem adjust_eq_error_iff {setting : Timer.Setting} :
    w.adjust t setting = .error e ↔ (w.timer t).adjust t.number setting = .error e := by
  unfold adjust
  cases (w.timer t).adjust t.number setting <;> simp [bind, Except.bind, pure, Except.pure]

theorem arm_eq_error_iff {triggered : Bool} :
    w.arm s t triggered = .error e ↔ (w.timer t).clockKey t.number = .error e := by
  unfold arm
  cases (w.timer t).clockKey t.number <;> simp [bind, Except.bind, pure, Except.pure]

theorem armIdle_eq_error_iff {immediate : Bool} :
    w.armIdle s t immediate = .error e ↔ (w.timer t).idleKey t.number = .error e := by
  unfold armIdle
  cases (w.timer t).idleKey t.number <;> simp [bind, Except.bind, pure, Except.pure]

/-- The interval is looked at first. -/
theorem prepare_eq_error_iff {refusal : Refusal} :
    w.prepare s timing interval callback args = .error refusal ↔
      (∃ i, interval = some i ∧ ¬ i.IsPositive ∧
        refusal = .error (.badTiming (.intervalNotPositive i))) ∨
      ((∀ i ∈ interval, i.IsPositive) ∧ ∃ reason,
        timing.resolve w.host.now (w.scheduler s).offset interval = .error reason ∧
          refusal = .ofUnresolved reason) := by
  unfold prepare
  split
  · rename_i i hbad
    obtain ⟨rfl, hnot⟩ : interval = some i ∧ ¬ i.IsPositive := by
      simpa using Option.filter_eq_some_iff.mp hbad
    simp [hnot, eq_comm]
  · rename_i hfine
    have hpositive : ∀ i ∈ interval, i.IsPositive := by
      simpa using Option.filter_eq_none_iff.mp hfine
    have hnot : ¬ ∃ i, interval = some i ∧ ¬ i.IsPositive ∧
        refusal = .error (.badTiming (.intervalNotPositive i)) := by
      rintro ⟨i, hi, hbad, -⟩
      exact hbad (hpositive i hi)
    rw [or_iff_right hnot, and_iff_right hpositive]
    cases timing.resolve w.host.now (w.scheduler s).offset interval <;> simp [eq_comm]

/-- What was set up is queued. -/
theorem schedule_eq_error_iff {refusal : Refusal} :
    w.schedule s timing interval callback args = .error refusal ↔
      w.prepare s timing interval callback args = .error refusal := by
  unfold schedule
  cases hprepare : w.prepare s timing interval callback args with
  | error refusal' => exact Iff.rfl
  | ok made =>
    obtain ⟨t, w'⟩ := made
    obtain ⟨r, time, -, hrow, rfl, rfl⟩ := prepare_eq_ok hprepare
    simp [bind, Except.bind, arm_of_armable s false (armable_create w hrow)]

theorem scheduleWhenIdle_eq_error_iff {again : Bool} :
    w.scheduleWhenIdle s timing again callback args = .error e ↔
      ∃ fault, e = .badTiming fault ∧ timing.waitWhenIdle = .error fault := by
  unfold scheduleWhenIdle
  split
  · rename_i fault hwait
    simp [hwait, eq_comm]
  · rename_i delay hwait
    refine iff_of_false ?_ ?_
    · intro h
      let r : Timer := {
        trigger := some (.afterIdle delay)
        interval := if again then some delay else none
        callback := some callback
        args }
      have hrow : r.Armable (.afterIdle delay) := ⟨rfl, rfl, Option.some_ne_none callback⟩
      have harm : ((w.create r).2.armIdle s ⟨w.created⟩ true >>= fun w' =>
          .ok ((⟨w.created⟩ : TimerId), w')) = .error e := h
      rw [armIdle_of_armable s true (armable_create w hrow)] at harm
      cases harm
    · rintro ⟨fault, -, hfault⟩
      rw [hwait] at hfault
      cases hfault

end World
end Timekeeping
