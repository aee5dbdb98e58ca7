import Timekeeping.Proofs.Run.Firings
import Timekeeping.Proofs.Run.Observing
import Timekeeping.Proofs.Run.Tallies
import Timekeeping.Proofs.Time.Repeats

/-!
Firings whose callbacks touch no timer and come back. They change their own timer
alone, and one that repeats on the clock is live again under its next trigger.
-/
namespace Timekeeping

open Act

/-- However it is called, the callback touches no timer and leaves the clock as it is. -/
structure Caller.LeavesTimers (call : Caller) (s : SchedulerId) (callback : Callback) : Prop where
  touches : ∀ {number args ms} {r : Run},
    (after (call s callback number args) r).journal = ms ++ r.journal →
    ∀ m ∈ ms, ∀ t, ¬ m.event.Touches m.world t
  now : ∀ number args (r : Run),
    (after (call s callback number args) r).world.host.now = r.world.host.now

/-- However it is called, the callback comes back, or it panics and that is taken for a failure. -/
def Caller.ComesBack (call : Caller) (catching : Bool) (s : SchedulerId) (callback : Callback) :
    Prop :=
  ∀ number args (r : Run), returns (shield catching (call s callback number args)) r = true

/-- The callback is that of a timer that waits in the scheduler. -/
def World.CallbackWaits (w : World) (s : SchedulerId) (callback : Callback) : Prop :=
  ∃ kind t trigger, (t, trigger) ∈ w.waiting s kind ∧ (w.timer t).callback = some callback

/-- The clock keys of a scheduler are normal, and the callbacks of its timers come back and touch no
timer. -/
structure World.Calm (w : World) (call : Caller) (s : SchedulerId) : Prop where
  sound : w.Sound
  normal : ∀ x ∈ w.waiting s .active, x.2.Normal
  leavesTimers : ∀ callback, w.CallbackWaits s callback → call.LeavesTimers s callback
  comesBack : ∀ callback, w.CallbackWaits s callback →
    call.ComesBack (w.scheduler s).config.catchPanics s callback

/-- A firing leaves the clock and all other timers alone, and starts its own once. One that repeats
on the clock is live under its next trigger when the firing is over. -/
structure Fired (s : SchedulerId) (t : TimerId) (r r' : Run) : Prop where
  now : r'.world.host.now = r.world.host.now
  config : ∀ s', (r'.world.scheduler s').config = (r.world.scheduler s').config
  others : ∀ u, t ≠ u → World.Unchanged r.world r'.world u
  starts : ∀ u, starts u r'.journal = starts u r.journal + if t = u then 1 else 0
  again : ∀ {time interval}, (r.world.timer t).trigger = some (.onClock time) →
    (r.world.timer t).interval = some interval →
    r'.world.Ready s (t, r.world.nextTrigger s (r.world.timer t) interval (.onClock time)) ∧
      (r'.world.timer t).interval = some interval ∧
      (r'.world.timer t).aligned = (r.world.timer t).aligned

variable {call : Caller} {pass : Nat} {s : SchedulerId} {t u : TimerId} {kind : QueueKind}
  {trigger : Trigger} {w w' : World} {r r' : Run} {start : World.Started}

/-- A firing in which nothing is touched between the start of the callback and its end in `back`. -/
structure QuietFiring (s : SchedulerId) (t : TimerId) (r : Run) (start : World.Started) (w : World)
    (ms : List Moment) (back : Run) : Prop extends Invokes s t r start w ms back where
  touches : ∀ m ∈ ms, ∀ u, ¬ m.event.Touches m.world u
  now : back.world.host.now = (r.starting s t start w).world.host.now

/-- A firing whose callback comes back is over when that has. -/
theorem fire_eq_ok (htake : r.world.take s t = .started start w)
    (hback : call.ComesBack (w.scheduler s).config.catchPanics s start.callback) : ∃ outcome,
      fire call s t r = .ok outcome ((after (call s start.callback (w.calls.get start.callback.key)
        start.args) (r.starting s t start w)).settling s t start) := by
  have hreturns := hback (w.calls.get start.callback.key) start.args (r.starting s t start w)
  rw [← after_shield _ (w.scheduler s).config.catchPanics, fire_of_take htake]
  unfold returns at hreturns
  unfold after
  cases hshield : shield (w.scheduler s).config.catchPanics
      (call s start.callback (w.calls.get start.callback.key) start.args)
      (r.starting s t start w) with
  | ok ending back => exact ⟨_, rfl⟩
  | error i back =>
    rw [hshield] at hreturns
    cases hreturns

theorem quietFiring_of_take (hcall : call.Keeps (Run.Continues none))
    (htake : r.world.take s t = .started start w) (hleaves : call.LeavesTimers s start.callback) :
    ∃ ms, QuietFiring s t r start w ms (after (call s start.callback
      (w.calls.get start.callback.key) start.args) (r.starting s t start w)) := by
  obtain ⟨ms, hinvokes⟩ := invokes_of_take hcall htake
  exact ⟨ms, hinvokes, hleaves.touches hinvokes.journal, hleaves.now ..⟩

namespace QuietFiring

variable {ms : List Moment} {back : Run} {x : TimerId × Trigger}

theorem unchanged (h : QuietFiring s t r start w ms back) (u : TimerId) :
    World.Unchanged (r.starting s t start w).world back.world u :=
  h.path.unchanged fun m hm => h.touches m hm u

theorem sound (h : QuietFiring s t r start w ms back) (hr : r.world.Sound) :
    (back.settling s t start).world.Sound :=
  (World.Step.settled s t start).sound
    (h.path.sound ((World.Step.started h.take).sound hr)).1

theorem others (h : QuietFiring s t r start w ms back) (hu : t ≠ u) :
    World.Unchanged r.world (back.settling s t start).world u :=
  (((World.Step.started h.take).unchanged hu).trans (h.unchanged u)).trans
    ((World.Step.settled s t start).unchanged hu)

theorem starts_eq (h : QuietFiring s t r start w ms back) (u : TimerId) :
    starts u (back.settling s t start).journal =
      starts u r.journal + if t = u then 1 else 0 := by
  have hquiet : starts u ms = 0 :=
    starts_eq_zero_iff.mpr fun m hm hstarts => h.touches m hm u hstarts.touches
  have hstarting : starts u (r.starting s t start w).journal =
      starts u r.journal + if t = u then 1 else 0 := starts_cons u _ _
  have hsettling : starts u (back.settling s t start).journal = starts u back.journal :=
    starts_cons u _ _
  rw [hsettling, h.journal, starts_append, hquiet, Nat.zero_add, hstarting]

/-- The row and the place of the timer when its callback has come back. -/
theorem exists_withdraw (h : QuietFiring s t r start w ms back) :
    ∃ kind, r.world.queueOf? s t = some kind ∧
      (back.world.timer t) = (r.world.withdraw s t kind).timer t ∧
      ∀ s' kind' x, x ∈ (back.settling s t start).world.waiting s' kind' ↔
        x ∈ (r.world.withdraw s t kind).waiting s' kind' := by
  obtain ⟨kind, S, hkind, -, ha, hi, rfl⟩ := World.take_eq_started h.take
  refine ⟨kind, hkind, (h.unchanged t).timer, fun s' kind' x => ?_⟩
  change x ∈ (back.world.settle s t start).waiting s' kind' ↔ _
  rw [World.waiting_settle, (h.unchanged x.1).waiting s' kind' x.2,
    ← World.waiting_setScheduler ha hi]
  rfl

end QuietFiring

/-- What is queued after a firing was queued before, or is the timer that was fired. -/
theorem World.Calm.of_mem (h : w.Calm call s) (hsound : w'.Sound)
    (hconfig : (w'.scheduler s).config = (w.scheduler s).config)
    (hcallback : ∀ u, (w'.timer u).callback = (w.timer u).callback)
    (hwaiting : ∀ {kind x}, x ∈ w'.waiting s kind → x ∈ w.waiting s kind ∨
      (kind = .active → x.2.Normal) ∧ ∃ kind' trigger, (x.1, trigger) ∈ w.waiting s kind') :
    w'.Calm call s := by
  have hold : ∀ callback, w'.CallbackWaits s callback → w.CallbackWaits s callback := by
    rintro callback ⟨kind, u, trigger, hu, hrow⟩
    rw [hcallback] at hrow
    rcases hwaiting hu with hu | ⟨-, kind', trigger', hu⟩
    · exact ⟨kind, u, trigger, hu, hrow⟩
    · exact ⟨kind', u, trigger', hu, hrow⟩
  refine ⟨hsound, fun x hx => ?_, fun callback hwaits => h.leavesTimers callback (hold _ hwaits),
    fun callback hwaits => hconfig ▸ h.comesBack callback (hold _ hwaits)⟩
  rcases hwaiting hx with hx | ⟨hnormal, -⟩
  · exact h.normal x hx
  · exact hnormal rfl

/-- The trigger that follows is normal, but for one that waits for idleness and is not. -/
theorem World.nextTrigger_normal (w : World) (s : SchedulerId) (row : Timer) (interval : Duration)
    {trigger : Trigger} (h : trigger.kind = .idle → trigger.Normal) :
    (w.nextTrigger s row interval trigger).Normal := by
  cases trigger with
  | onClock time => exact World.followingRepeat_normal ..
  | afterIdle delay => exact h rfl

section Firing

variable {ms : List Moment} {back : Run}

theorem QuietFiring.fired (h : QuietFiring s t r start w ms back) :
    Fired s t r (back.settling s t start) where
  now := by
    have hbegan := (World.SameFrame.take h.take).host
    have hsettle := (World.SameFrame.settle back.world s t start).host
    change (back.world.settle s t start).host.now = _
    rw [hsettle, h.now, ← hbegan]
    rfl
  config s' := by
    have hstart := (World.Step.started h.take).framed.config s'
    have hend := (World.Step.settled (w := back.world) s t start).framed.config s'
    exact hend.trans ((h.path.config_eq s').trans hstart)
  others u hu := h.others hu
  starts := h.starts_eq
  again := h.again fun m hm => h.touches m hm t

theorem QuietFiring.calm (h : QuietFiring s t r start w ms back) (hr : r.world.Calm call s) :
    (back.settling s t start).world.Calm call s := by
  obtain ⟨kind, hkind, hrow, hwaiting⟩ := h.exists_withdraw
  refine hr.of_mem (h.sound hr.sound) (h.fired.config s) (fun u => ?_) (fun {kind' x} hx => ?_)
  · by_cases hu : t = u
    · subst hu
      have hcallback : (back.world.timer t).callback = (r.world.timer t).callback := by
        rw [hrow]
        exact World.callback_withdraw ..
      change ((back.world.settle s t start).timer t).callback = _
      obtain heq | heq := World.timer_settle back.world s t start <;> rw [heq] <;> exact hcallback
    · rw [(h.others hu).timer]
  · rw [hwaiting] at hx
    have hx' := Scheduler.kind_of_mem_waiting hx
    rcases World.mem_waiting_withdraw hx with hx | ⟨interval, trigger, -, -, rfl⟩
    · exact Or.inl hx
    · refine Or.inr ⟨fun hactive => ?_, kind, ?_⟩
      · refine World.nextTrigger_normal _ _ _ _ fun hidle => ?_
        have hnext := (World.kind_nextTrigger r.world s (r.world.timer t) interval trigger).symm
        cases hidle.symm.trans (hnext.trans (hx'.trans hactive))
      · exact ((World.queueOf?_eq_some_iff _ _ _ _).mp hkind).2

end Firing

/-- A timer that waits is fired to the end. -/
theorem World.Calm.fire (hcall : call.Keeps (Run.Continues none)) (h : r.world.Calm call s)
    (ht : (t, trigger) ∈ r.world.waiting s kind) : ∃ outcome r',
      Timekeeping.fire call s t r = .ok outcome r' ∧ r'.world.Calm call s ∧ Fired s t r r' := by
  obtain ⟨start, w₁, htake⟩ := h.sound.exists_take_eq_started ht
  obtain ⟨-, -, -, hrow, -⟩ := take_eq_started htake
  have hwaits : r.world.CallbackWaits s start.callback := ⟨kind, t, trigger, ht, hrow⟩
  obtain ⟨outcome, hfire⟩ := fire_eq_ok htake
    ((SameFrame.take htake).config s ▸ h.comesBack _ hwaits)
  obtain ⟨ms, hquiet⟩ := quietFiring_of_take hcall htake (h.leavesTimers _ hwaits)
  exact ⟨outcome, _, hfire, hquiet.calm h, hquiet.fired⟩

end Timekeeping
