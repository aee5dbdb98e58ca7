import Timekeeping.Proofs.Run.Settings

/-!
Timers that schedulers would set up themselves. A timer is made valid, and cancelling,
waking, firing and settling leave it so: a firing moves the trigger of a repeating timer,
but keeps its kind, its delay and its interval. Only a setter can make a timer invalid. And
what is queued was armed, so queues hold valid timers for as long as valid ones are armed.
-/
namespace Timekeeping

theorem Timer.Valid.positive {r : Timer} {key : Instant} {interval : Duration} (h : r.Valid)
    (htrigger : r.trigger = some (.onClock key)) (hinterval : r.interval = some interval) :
    interval.IsPositive := by
  unfold Timer.Valid at h
  rw [htrigger] at h
  exact h interval hinterval

/-- A scheduler would set up a timer with this setting, or with what the setting makes of its
trigger. -/
def Timer.Setting.Admissible (r : Timer) : Timer.Setting → Prop
  | .time _ interval => ∀ i ∈ interval, i.IsPositive
  | .idleTime delay _ => ¬ delay.IsNegative
  | .function _ _ => True
  | .aligned _ => True
  | .shift delta => ∀ delay, r.trigger = some (.afterIdle delay) → ¬ (delay + delta).IsNegative

/-- Setters take what they are given, so a valid timer stays valid just if that is admissible. -/
theorem Timer.valid_apply {r r' : Timer} {setting : Timer.Setting} (hr : r.Valid)
    (h : r.apply setting = .ok r') : r'.Valid ↔ setting.Admissible r := by
  cases setting with
  | time time interval =>
    cases h
    exact Iff.rfl
  | idleTime delay again =>
    cases h
    exact Iff.rfl
  | function callback args =>
    cases h
    exact iff_of_true hr trivial
  | aligned on =>
    cases h
    exact iff_of_true hr trivial
  | shift delta =>
    unfold Timer.apply at h
    unfold Timer.Valid at hr
    cases htrigger : r.trigger with
    | none => simp [htrigger] at h
    | some trigger =>
      simp only [htrigger, Except.ok.injEq] at h hr
      subst h
      cases trigger with
      | onClock time => exact iff_of_true hr (by simp [Setting.Admissible, htrigger])
      | afterIdle delay => simp [Timer.Valid, Setting.Admissible, htrigger, Trigger.shift]

theorem Timer.SameSettings.valid {r r' : Timer} (h : r.SameSettings r') (hr : r.Valid) :
    r'.Valid := by
  unfold Timer.Valid
  rw [h.trigger, h.interval]
  exact hr

/-- Only one timer is armed at a time. -/
instance (e : Event) (P : TimerId → Prop) [DecidablePred P] : Decidable (∀ t, e.Arms t → P t) :=
  match e with
  | .armed _ u _ _ =>
    decidable_of_iff (P u) ⟨fun hu _ ht => Eq.subst ht hu, fun hall => hall u rfl⟩
  | .created _ | .named _ _ | .adjusted _ | .cancelled _ _ | .idleStarted _ | .contextChanged _
  | .hostChanged _ | .stopSet _ | .started .. | .settled .. | .emptied _ _ | .stepped ..
  | .passBegan .. | .passedOver .. | .picked .. | .passEnded .. | .pollBegan _ | .pollEnded _ =>
    isTrue fun _ hnone => hnone.elim

namespace World

/-- The timers in active queues that repeat have positive intervals, and the keys in idle queues are
not negative. -/
structure Validated (w : World) : Prop where
  active : ∀ s, ∀ e ∈ (w.scheduler s).active.entries,
    ∀ i ∈ (w.timer e.item).interval, i.IsPositive
  idle : ∀ s, ∀ e ∈ (w.scheduler s).idle.entries, ¬ e.key.IsNegative

variable {w w' w₁ w₂ : World} {e : Event} {s : SchedulerId} {t : TimerId} {kind : QueueKind}
  {trigger : Trigger} {ms : List Moment}

section Queues

/-- In terms of rows: all timers that are queued are valid. -/
theorem Sound.validated_iff (h : w.Sound) :
    w.Validated ↔ ∀ t, (w.timer t).queued ≠ none → (w.timer t).Valid := by
  constructor
  · intro hw t hqueued
    obtain ⟨kind, hkind⟩ := Option.ne_none_iff_exists'.mp hqueued
    obtain ⟨s, trigger, hmem⟩ := h.queued hkind
    have htrigger := (h.entry hmem).2
    unfold Timer.Valid
    rw [htrigger]
    cases kind with
    | active =>
      obtain ⟨e, he, heq⟩ := List.mem_map.mp hmem
      obtain ⟨rfl, rfl⟩ := Prod.mk.inj heq
      exact hw.active s e he
    | idle =>
      obtain ⟨e, he, heq⟩ := List.mem_map.mp hmem
      obtain ⟨rfl, rfl⟩ := Prod.mk.inj heq
      exact hw.idle s e he
  · intro hw
    constructor
    · intro s e he
      have hmem : (e.item, .onClock e.key) ∈ w.waiting s .active := List.mem_map_of_mem he
      obtain ⟨hqueued, htrigger⟩ := h.entry hmem
      have hvalid := hw e.item (by simp [hqueued])
      unfold Timer.Valid at hvalid
      rw [htrigger] at hvalid
      exact hvalid
    · intro s e he
      have hmem : (e.item, .afterIdle e.key) ∈ w.waiting s .idle := List.mem_map_of_mem he
      obtain ⟨hqueued, htrigger⟩ := h.entry hmem
      have hvalid := hw e.item (by simp [hqueued])
      unfold Timer.Valid at hvalid
      rw [htrigger] at hvalid
      exact hvalid

end Queues

section Rows

/-- A firing keeps the interval. -/
theorem interval_withdraw (w : World) (s : SchedulerId) (t : TimerId) (kind : QueueKind) :
    ((w.withdraw s t kind).timer t).interval = (w.timer t).interval := by
  unfold withdraw
  dsimp only
  obtain heq | ⟨next, heq⟩ := requeue_cases ((w.dequeue s t kind).setTimer t
    { (w.dequeue s t kind).timer t with triggered := true }) s t (w.timer t)
  · rw [heq]
    simp [timer_dequeue]
  · rw [heq]
    simp [timer_enqueue, timer_dequeue]

theorem valid_withdraw (h : (w.timer t).Valid) (s : SchedulerId) (kind : QueueKind) :
    ((w.withdraw s t kind).timer t).Valid := by
  unfold Timer.Valid at h ⊢
  rw [interval_withdraw]
  rcases trigger_withdraw w s t kind with hsame | ⟨interval, trigger, htrigger, hnext⟩
  · rw [hsame]
    exact h
  · rw [htrigger] at h
    rw [hnext]
    cases trigger with
    | onClock time => exact h
    | afterIdle delay => exact h

/-- A step that makes a valid timer invalid is a setter's, of a setting that schedulers would refuse. -/
theorem Step.exists_setting (h : w.Step e w') (ht : (w.timer t).Valid)
    (hinvalid : ¬ (w'.timer t).Valid) :
    e = .adjusted t ∧ w.made t = true ∧ ∃ setting, w.adjust t setting = .ok w' ∧
      ¬ setting.Admissible (w.timer t) := by
  by_cases htouch : e.Touches w' t
  · cases h with
    | created r hr =>
      obtain rfl : _ = t := htouch
      rw [timer_create, if_pos rfl] at hinvalid
      exact absurd hr.valid hinvalid
    | @adjusted u setting w' hadjust hmade =>
      obtain rfl : u = t := htouch
      obtain ⟨-, r, happly, hw'⟩ := apply_of_adjust hadjust
      rw [hw', timer_setTimer, if_pos rfl, Timer.valid_apply ht happly] at hinvalid
      exact ⟨rfl, hmade, setting, hadjust, hinvalid⟩
    | armed s triggered hrow hmade =>
      obtain rfl : _ = t := htouch
      rw [timer_enqueue, if_pos rfl] at hinvalid
      exact absurd ht hinvalid
    | @scheduled s r trigger triggered hr hnew =>
      obtain rfl : _ = t := htouch
      rw [timer_enqueue, if_pos rfl, timer_create, if_pos rfl] at hinvalid
      exact absurd hnew.valid hinvalid
    | cancelled s hts => exact absurd ((settings_cancelAll w s _ t).valid ht) hinvalid
    | idleStarted s => exact absurd ((settings_rouse w _ t).valid ht) hinvalid
    | started htake =>
      obtain rfl : _ = t := htouch
      obtain ⟨kind, S, -, -, -, -, rfl⟩ := take_eq_started htake
      exact absurd (valid_withdraw ht _ kind) hinvalid
    | settled s u start =>
      obtain rfl : u = t := htouch
      exact absurd ((settings_settle w s u start).valid ht) hinvalid
    | emptied htake =>
      obtain rfl : _ = t := htouch
      obtain ⟨kind, -, -, rfl⟩ := take_eq_idle htake
      exact absurd (valid_withdraw ht _ kind) hinvalid
    | _ => exact htouch.elim
  · rw [(h.unchanged htouch).timer] at hinvalid
    exact absurd ht hinvalid

/-- A step keeps all queued timers valid, if it arms valid ones only. -/
theorem Step.keeps_queued_valid (h : w.Step e w') (hw : w.Sound)
    (hvalid : ∀ t, (w.timer t).queued ≠ none → (w.timer t).Valid)
    (harmed : ∀ t, e.Arms t → (w'.timer t).Valid) :
    ∀ t, (w'.timer t).queued ≠ none → (w'.timer t).Valid := by
  intro t hqueued
  by_cases harms : e.Arms t
  · exact harmed t harms
  · have hbefore : (w.timer t).queued ≠ none := fun hout =>
      hqueued (h.stays_out hw hout harms).1
    -- A setter answers with an error while the timer is queued.
    by_contra hinvalid
    obtain ⟨-, -, setting, hadjust, -⟩ := h.exists_setting (hvalid t hbefore) hinvalid
    exact hbefore (adjust_eq_ok hadjust).1

/-- Along a path queues hold valid timers, if only those are armed. -/
theorem Path.validated (h : w₁.Path ms w₂) (hw : w₁.Sound) (hvalid : w₁.Validated)
    (harmed : ∀ m ∈ ms, ∀ t, m.event.Arms t → (m.world.timer t).Valid) :
    w₂.Validated ∧ ∀ m ∈ ms, m.world.Validated := by
  obtain ⟨hlast, hall⟩ := h.invariant_of
    (P := fun m => ∀ t, m.event.Arms t → (m.world.timer t).Valid)
    (I := fun w => w.Sound ∧ ∀ t, (w.timer t).queued ≠ none → (w.timer t).Valid)
    (fun hstep harmed hI => ⟨hstep.sound hI.1, hstep.keeps_queued_valid hI.1 hI.2 harmed⟩)
    harmed ⟨hw, hw.validated_iff.mp hvalid⟩
  exact ⟨hlast.1.validated_iff.mpr hlast.2,
    fun m hm => (hall m hm).1.validated_iff.mpr (hall m hm).2⟩

end Rows

end World
end Timekeeping
