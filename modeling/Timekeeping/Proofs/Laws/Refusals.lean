import Timekeeping.Proofs.Run.Reachability
import Timekeeping.Proofs.State.Refusals

/-!
Operations that are refused. Setters, arming and scheduling are decided by the world in
which they are performed, before anything is changed. So an operation that answers with an
error leaves the run as it was, queues, rows, histories and contexts included; and which
error that is, if any, can be told from the world.
-/
namespace Timekeeping

open Act

namespace World

/-- The timer is in a queue of some scheduler. -/
def Queued (w : World) (t : TimerId) : Prop := ∃ s, t ∈ (w.scheduler s).items

/-- The errors with which a setting is refused. -/
def Unsettable (w : World) (t : TimerId) (setting : Timer.Setting) (e : TimerError) : Prop :=
  (e = .alreadyActive t.number ∧ w.Queued t) ∨
    (e = .invalidTimer t.number .noTime ∧ ¬ w.Queued t ∧ (w.timer t).trigger = none ∧
      ∃ delta, setting = .shift delta)

/-- The errors with which a timer is not armed for a kind of queue. -/
def Unarmable (w : World) (t : TimerId) (kind : QueueKind) (e : TimerError) : Prop :=
  (e = .alreadyActive t.number ∧ w.Queued t) ∨
    ∃ fault, e = .invalidTimer t.number fault ∧ ¬ w.Queued t ∧ (w.timer t).Unfit kind fault

/-- The errors with which no timer is set up for a timing and an interval. -/
def Unschedulable (w : World) (s : SchedulerId) (timing : Timing) (interval : Option Duration)
    (e : TimerError) : Prop :=
  (∃ i, interval = some i ∧ ¬ i.IsPositive ∧ e = .badTiming (.intervalNotPositive i)) ∨
    ((∀ i ∈ interval, i.IsPositive) ∧ ∃ fault, e = .badTiming fault ∧
      timing.resolve w.host.now (w.scheduler s).offset interval = .error (.fault fault))

/-- The timing asks for a date that no calendar has. -/
def Undatable (w : World) (s : SchedulerId) (timing : Timing) (interval : Option Duration) : Prop :=
  (∀ i ∈ interval, i.IsPositive) ∧
    timing.resolve w.host.now (w.scheduler s).offset interval = .error .localDateOutOfRange

end World

/-- An operation answers with an error, or is interrupted, just in the given cases, and changes nothing
then. In all other cases it answers as given. -/
structure Decides (call : Caller) (operation : Operation) (r : Run) (reply : Reply)
    (fails : TimerError → Prop) (interrupted : Prop) : Prop where
  fails_iff : ∀ e, (∃ r', perform call operation r = .ok (.error e) r') ↔ fails e
  interrupted_iff : (∃ i r', perform call operation r = .error i r') ↔ interrupted
  succeeds_iff : (∃ r', perform call operation r = .ok reply r') ↔
    ¬ interrupted ∧ ∀ e, ¬ fails e
  unchanged : ∀ {e r'}, perform call operation r = .ok (.error e) r' → r' = r
  unchanged_of_interrupted : ∀ {i r'}, perform call operation r = .error i r' → r' = r

/-- The answer to an operation that is refused. -/
theorem Decides.perform_eq {call : Caller} {operation : Operation} {r : Run} {reply : Reply}
    {fails : TimerError → Prop} {interrupted : Prop} {e : TimerError}
    (h : Decides call operation r reply fails interrupted) (hfails : fails e) :
    perform call operation r = .ok (.error e) r := by
  obtain ⟨r', hperform⟩ := (h.fails_iff e).mpr hfails
  obtain rfl := h.unchanged hperform
  exact hperform

/-- What is refused in a run and what is not. -/
structure Refuses (call : Caller) (r : Run) : Prop where
  adjust : ∀ {t}, r.world.made t = true → ∀ setting,
    Decides call (.adjust t setting) r .done (r.world.Unsettable t setting) False
  arm : ∀ {t}, r.world.made t = true → ∀ s triggered,
    Decides call (.arm s t triggered) r .done (r.world.Unarmable t .active) False
  armIdle : ∀ {t}, r.world.made t = true → ∀ s immediate,
    Decides call (.armIdle s t immediate) r .done (r.world.Unarmable t .idle) False
  unfit_iff : ∀ t kind, (∃ fault, (r.world.timer t).Unfit kind fault) ↔
    (r.world.timer t).callback = none ∨ (r.world.timer t).trigger.map Trigger.kind ≠ some kind
  prepare : ∀ s timing interval callback args,
    Decides call (.prepare s timing interval callback args) r (.timer ⟨r.world.created⟩)
      (r.world.Unschedulable s timing interval) (r.world.Undatable s timing interval)
  schedule : ∀ s timing interval callback args,
    Decides call (.schedule s timing interval callback args) r (.timer ⟨r.world.created⟩)
      (r.world.Unschedulable s timing interval) (r.world.Undatable s timing interval)
  scheduleWhenIdle : ∀ s timing again callback args,
    Decides call (.scheduleWhenIdle s timing again callback args) r (.timer ⟨r.world.created⟩)
      (fun e => ∃ fault, e = .badTiming fault ∧ timing.waitWhenIdle = .error fault) False
  waitWhenIdle_iff : ∀ timing : Timing, (∃ fault, timing.waitWhenIdle = .error fault) ↔
    ∀ delay ∈ timing.delay?, delay.IsNegative

variable {call : Caller} {operation : Operation} {r : Run} {w : World} {s : SchedulerId}
  {t : TimerId} {e : TimerError} {reply : Reply} {event : Event} {fails : TimerError → Prop}
  {interrupted : Prop} {verdict : Except World.Refusal World} {timing : Timing}
  {interval : Option Duration} {callback : Callback} {args : List Json} {setting : Timer.Setting}

namespace World

theorem Sound.queued_ne_none_iff (h : w.Sound) : (w.timer t).queued ≠ none ↔ w.Queued t := by
  rw [Ne, h.queued_eq_none_iff]
  unfold Queued
  push Not
  exact Iff.rfl

theorem Sound.not_queued_iff (h : w.Sound) : (w.timer t).queued = none ↔ ¬ w.Queued t := by
  rw [← h.queued_ne_none_iff, not_not]

theorem Sound.adjust_eq_error_iff (h : w.Sound) :
    w.adjust t setting = .error e ↔ w.Unsettable t setting e := by
  rw [World.adjust_eq_error_iff, Timer.adjust_eq_error_iff, h.queued_ne_none_iff,
    h.not_queued_iff]
  exact Iff.rfl

theorem Sound.arm_eq_error_iff (h : w.Sound) {triggered : Bool} :
    w.arm s t triggered = .error e ↔ w.Unarmable t .active e := by
  rw [World.arm_eq_error_iff, Timer.clockKey_eq_error_iff, h.queued_ne_none_iff, h.not_queued_iff]
  exact Iff.rfl

theorem Sound.armIdle_eq_error_iff (h : w.Sound) {immediate : Bool} :
    w.armIdle s t immediate = .error e ↔ w.Unarmable t .idle e := by
  rw [World.armIdle_eq_error_iff, Timer.idleKey_eq_error_iff, h.queued_ne_none_iff,
    h.not_queued_iff]
  exact Iff.rfl

theorem prepare_eq_fault_iff : w.prepare s timing interval callback args = .error (.error e) ↔
    w.Unschedulable s timing interval e := by
  rw [prepare_eq_error_iff]
  unfold Unschedulable
  refine or_congr (by simp) (and_congr_right fun _ => ⟨?_, ?_⟩)
  · rintro ⟨reason, hreason, heq⟩
    cases reason with
    | fault fault =>
      cases heq
      exact ⟨fault, rfl, hreason⟩
    | localDateOutOfRange => cases heq
  · rintro ⟨fault, rfl, hreason⟩
    exact ⟨_, hreason, rfl⟩

theorem prepare_eq_localDateOutOfRange_iff :
    w.prepare s timing interval callback args = .error .localDateOutOfRange ↔
      w.Undatable s timing interval := by
  rw [prepare_eq_error_iff]
  constructor
  · rintro (⟨i, -, -, heq⟩ | ⟨hpositive, reason, hreason, heq⟩)
    · cases heq
    · cases reason with
      | fault fault => cases heq
      | localDateOutOfRange => exact ⟨hpositive, hreason⟩
  · rintro ⟨hpositive, hreason⟩
    exact Or.inr ⟨hpositive, _, hreason, rfl⟩

end World

/-- The end of an operation that the world allows or refuses. -/
def concluded (verdict : Except World.Refusal World) (reply : Reply) (event : Event) (r : Run) :
    EStateM.Result Interrupt Run Reply :=
  match verdict with
  | .ok w => .ok reply (r.advance event w)
  | .error (.error e) => .ok (.error e) r
  | .error .localDateOutOfRange => .error (.panic localDatePanic) r

theorem decides_of_concluded (h : perform call operation r = concluded verdict reply event r)
    (hreply : ∀ e, reply ≠ .error e) (hfails : ∀ e, verdict = .error (.error e) ↔ fails e)
    (hinterrupted : verdict = .error .localDateOutOfRange ↔ interrupted) :
    Decides call operation r reply fails interrupted := by
  cases verdict with
  | ok w =>
    have hend : perform call operation r = .ok reply (r.advance event w) := h
    constructor <;> simp [hend, hreply, ← hfails, ← hinterrupted]
  | error refusal =>
    cases refusal with
    | error e =>
      have hend : perform call operation r = .ok (.error e) r := h
      have hother : .error e ≠ reply := fun heq => hreply e heq.symm
      constructor <;> simp [hend, hother, ← hfails, ← hinterrupted]
    | localDateOutOfRange =>
      have hend : perform call operation r = .error (.panic localDatePanic) r := h
      constructor <;> simp [hend, ← hfails, ← hinterrupted]

/-- An operation that tries to change the world and answers with the error, if there is one. -/
theorem decides_of_attempt {attempt : World → Except TimerError World}
    (h : perform call operation r = (do
      match attempt (← world) with
      | .ok w => record event w; return .done
      | .error e => return .error e : Act Reply) r)
    (hfails : ∀ e, attempt r.world = .error e ↔ fails e) :
    Decides call operation r .done fails False := by
  have hend : perform call operation r =
      concluded ((attempt r.world).mapError .error) .done event r := by
    rw [h, Act.world_bind]
    cases attempt r.world <;> rfl
  refine decides_of_concluded hend (by simp) (fun e => ?_) ?_
  · rw [← hfails]
    cases attempt r.world <;> simp [Except.mapError]
  · cases attempt r.world <;> simp [Except.mapError]

/-- An operation that tries to make a timer. -/
theorem decides_of_making {making : Except World.Refusal (TimerId × World)}
    {event : TimerId → Event}
    (h : perform call operation r = (match making with
      | .ok (t, w) => do
        record (event t) w
        return .timer t
      | .error e => refuse e : Act Reply) r)
    (hmade : ∀ {t w}, making = .ok (t, w) → t = ⟨r.world.created⟩)
    (hfails : ∀ e, making = .error (.error e) ↔ fails e)
    (hinterrupted : making = .error .localDateOutOfRange ↔ interrupted) :
    Decides call operation r (.timer ⟨r.world.created⟩) fails interrupted := by
  have hend : perform call operation r = concluded (making.map Prod.snd)
      (.timer ⟨r.world.created⟩) (event ⟨r.world.created⟩) r := by
    rw [h]
    cases making with
    | ok made =>
      obtain ⟨t, w⟩ := made
      obtain rfl := hmade rfl
      rfl
    | error refusal => cases refusal <;> rfl
  refine decides_of_concluded hend (by simp) (fun e => ?_) ?_
  · rw [← hfails]
    cases making <;> simp [Except.map]
  · rw [← hinterrupted]
    cases making <;> simp [Except.map]

theorem decides_prepare (call : Caller) (r : Run) (s : SchedulerId) (timing : Timing)
    (interval : Option Duration) (callback : Callback) (args : List Json) :
    Decides call (.prepare s timing interval callback args) r (.timer ⟨r.world.created⟩)
      (r.world.Unschedulable s timing interval) (r.world.Undatable s timing interval) := by
  refine decides_of_making (perform_of_known (.prepare s timing interval callback args) rfl)
    (fun hprepare => ?_) (fun e => World.prepare_eq_fault_iff)
    World.prepare_eq_localDateOutOfRange_iff
  obtain ⟨row, time, -, -, rfl, -⟩ := World.prepare_eq_ok hprepare
  rfl

theorem decides_schedule (call : Caller) (r : Run) (s : SchedulerId) (timing : Timing)
    (interval : Option Duration) (callback : Callback) (args : List Json) :
    Decides call (.schedule s timing interval callback args) r (.timer ⟨r.world.created⟩)
      (r.world.Unschedulable s timing interval) (r.world.Undatable s timing interval) := by
  refine decides_of_making (perform_of_known (.schedule s timing interval callback args) rfl)
    (fun hschedule => ?_)
    (fun e => World.schedule_eq_error_iff.trans World.prepare_eq_fault_iff)
    (World.schedule_eq_error_iff.trans World.prepare_eq_localDateOutOfRange_iff)
  obtain ⟨row, time, -, -, rfl, -⟩ := World.schedule_eq_ok hschedule
  rfl

theorem decides_scheduleWhenIdle (call : Caller) (r : Run) (s : SchedulerId) (timing : Timing)
    (again : Bool) (callback : Callback) (args : List Json) :
    Decides call (.scheduleWhenIdle s timing again callback args) r (.timer ⟨r.world.created⟩)
      (fun e => ∃ fault, e = .badTiming fault ∧ timing.waitWhenIdle = .error fault) False := by
  have hend : perform call (.scheduleWhenIdle s timing again callback args) r =
      concluded (((r.world.scheduleWhenIdle s timing again callback args).map Prod.snd).mapError
        .error) (.timer ⟨r.world.created⟩) (.armed s ⟨r.world.created⟩ .idle false) r := by
    rw [perform_of_known _ rfl]
    unfold performKnown
    dsimp only
    rw [Act.world_bind]
    cases hmade : r.world.scheduleWhenIdle s timing again callback args with
    | ok made =>
      obtain ⟨t, w⟩ := made
      obtain ⟨row, delay, -, -, rfl, -⟩ := World.scheduleWhenIdle_eq_ok hmade
      rfl
    | error e => rfl
  have hrefused : ∀ e, r.world.scheduleWhenIdle s timing again callback args = .error e ↔
      ∃ fault, e = .badTiming fault ∧ timing.waitWhenIdle = .error fault :=
    fun _ => World.scheduleWhenIdle_eq_error_iff
  refine decides_of_concluded hend (by simp) (fun e => ?_) ?_
  · rw [← hrefused]
    cases r.world.scheduleWhenIdle s timing again callback args <;>
      simp [Except.map, Except.mapError]
  · cases r.world.scheduleWhenIdle s timing again callback args <;>
      simp [Except.map, Except.mapError]

theorem decides_arm (call : Caller) (h : r.world.Sound) (hmade : r.world.made t = true)
    (s : SchedulerId) (triggered : Bool) :
    Decides call (.arm s t triggered) r .done (r.world.Unarmable t .active) False :=
  decides_of_attempt (perform_of_known (.arm s t triggered) hmade) fun _ => h.arm_eq_error_iff

theorem decides_armIdle (call : Caller) (h : r.world.Sound) (hmade : r.world.made t = true)
    (s : SchedulerId) (immediate : Bool) :
    Decides call (.armIdle s t immediate) r .done (r.world.Unarmable t .idle) False :=
  decides_of_attempt (perform_of_known (.armIdle s t immediate) hmade)
    fun _ => h.armIdle_eq_error_iff

/-- Whatever has happened before and wherever an operation is performed, it is refused just when the
world says so, and then it has changed nothing. -/
theorem World.Arises.refusals (h : r.world.Arises) (call : Caller) : Refuses call r where
  adjust {t} hmade setting :=
    decides_of_attempt (perform_of_known (.adjust t setting) hmade)
      fun _ => h.sound.adjust_eq_error_iff
  arm := decides_arm call h.sound
  armIdle := decides_armIdle call h.sound
  unfit_iff _ _ := Timer.exists_unfit_iff
  prepare := decides_prepare call r
  schedule := decides_schedule call r
  scheduleWhenIdle := decides_scheduleWhenIdle call r
  waitWhenIdle_iff _ := Timing.exists_waitWhenIdle_eq_error_iff

/-- At the end of the sample run the first timer is queued, and the second one, for the clock, is not. -/
theorem refusals_sampleRun :
    perform (fun _ _ _ _ => return .succeeded) (.arm 1 ⟨0⟩ false) sampleRun =
        .ok (.error (.alreadyActive 1)) sampleRun ∧
      perform (fun _ _ _ _ => return .succeeded) (.armIdle 0 ⟨1⟩ true) sampleRun =
        .ok (.error (.invalidTimer 2 .notAfterIdle)) sampleRun ∧
      ∃ r', perform (fun _ _ _ _ => return .succeeded) (.arm 1 ⟨1⟩ false) sampleRun =
        .ok .done r' := by
  have hlaw := reachable_sampleRun.arises.refusals fun _ _ _ _ => return .succeeded
  have hsound := reachable_sampleRun.sound.1
  have hin : sampleRun.world.Queued ⟨0⟩ := ⟨0, by decide +kernel⟩
  have hout : ¬ sampleRun.world.Queued ⟨1⟩ := hsound.not_queued_iff.mp (by decide +kernel)
  have hcallback : (sampleRun.world.timer ⟨1⟩).callback ≠ none := by decide +kernel
  have htrigger : (sampleRun.world.timer ⟨1⟩).trigger = some (.onClock (.ofSeconds 5)) := by
    decide +kernel
  have hmade : sampleRun.world.made ⟨0⟩ = true ∧ sampleRun.world.made ⟨1⟩ = true := by
    decide +kernel
  refine ⟨(hlaw.arm hmade.1 1 false).perform_eq (Or.inl ⟨rfl, hin⟩), ?_, ?_⟩
  · exact (hlaw.armIdle hmade.2 0 true).perform_eq
      (Or.inr ⟨_, rfl, hout, .notAfterIdle hcallback htrigger⟩)
  · refine (hlaw.arm hmade.2 1 false).succeeds_iff.mpr ⟨not_false, ?_⟩
    rintro e (⟨-, hqueued⟩ | ⟨fault, -, -, hunfit⟩)
    · exact hout hqueued
    · have hfault := (hlaw.unfit_iff ⟨1⟩ .active).mp ⟨fault, hunfit⟩
      rw [htrigger] at hfault
      exact hfault.elim hcallback fun hkind => hkind rfl

end Timekeeping
