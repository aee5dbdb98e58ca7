import Timekeeping.Proofs.Laws.Cancellation
import Timekeeping.Proofs.Laws.Conservation
import Timekeeping.Proofs.Run.Settings

/-!
What the triggered flag tells of a timer that is in no queue. New timers and those that
have fired are triggered, and setters leave the flag alone. Cancelling does not set it. So
a timer that was cancelled while it was live goes on as live, though it waits nowhere, until
it is armed again; and no other timer does.
-/
namespace Timekeeping

/-- The timer is in no queue, and its flag says that it waits. -/
def World.Adrift (w : World) (t : TimerId) : Prop :=
  (w.timer t).triggered = false ∧ w.Lacks t

/-- The timer was cancelled when it was live, and has not been armed since. -/
def LeftLive (t : TimerId) (ms : List Moment) : Prop :=
  ∃ since cancelling before earlier, ms = since ++ cancelling :: before :: earlier ∧
    cancelling.event.Cancels t ∧ (before.world.timer t).triggered = false ∧
    ∀ m ∈ since, ¬ m.event.Arms t

/-- What the flag tells at every moment of a run and at its end. -/
structure FlagTells (r : Run) : Prop where
  adrift_iff : ∀ t, r.world.Adrift t ↔ LeftLive t r.journal
  adrift_iff_at : ∀ {later m earlier}, r.journal = later ++ m :: earlier →
    ∀ t, m.world.Adrift t ↔ LeftLive t (m :: earlier)

variable {r : Run} {w w' w₁ w₂ : World} {e : Event} {s : SchedulerId} {t : TimerId} {m : Moment}
  {ms : List Moment}

theorem LeftLive.cons (h : LeftLive t ms) (harms : ¬ m.event.Arms t) : LeftLive t (m :: ms) := by
  obtain ⟨since, cancelling, before, earlier, rfl, hcancels, hlive, hunarmed⟩ := h
  exact ⟨m :: since, cancelling, before, earlier, rfl, hcancels, hlive,
    List.forall_mem_cons.mpr ⟨harms, hunarmed⟩⟩

theorem Timer.triggered_apply {r r' : Timer} {setting : Timer.Setting}
    (h : r.apply setting = .ok r') : r'.triggered = r.triggered := by
  cases setting with
  | shift delta =>
    unfold Timer.apply at h
    cases htrigger : r.trigger with
    | none => simp [htrigger] at h
    | some trigger =>
      simp only [htrigger, Except.ok.injEq] at h
      subst h
      rfl
  | _ =>
    cases h
    rfl

namespace World

theorem triggered_cancelAll (w : World) (s : SchedulerId) (ts : List TimerId) (t : TimerId) :
    ((w.cancelAll s ts).timer t).triggered = (w.timer t).triggered := by
  induction ts generalizing w with
  | nil => rfl
  | cons u rest ih =>
    refine (ih (w.cancel s u)).trans ?_
    obtain ⟨-, heq⟩ | ⟨kind, -, heq⟩ := cancel_cases w s u
    · rw [heq]
    · rw [heq, timer_dequeue]
      split
      · subst u
        rfl
      · rfl

/-- A timer that is fired is triggered, whether it is queued again or not. -/
theorem triggered_withdraw (w : World) (s : SchedulerId) (t : TimerId) (kind : QueueKind) :
    ((w.withdraw s t kind).timer t).triggered = true := by
  unfold withdraw
  dsimp only
  obtain heq | ⟨next, heq⟩ := requeue_cases ((w.dequeue s t kind).setTimer t
    { (w.dequeue s t kind).timer t with triggered := true }) s t (w.timer t)
  · rw [heq]
    simp
  · rw [heq]
    simp [timer_enqueue]

/-- A step leaves the flag of a timer that is in no queue alone, unless it arms it or makes it. -/
theorem Step.triggered_of_out (h : w.Step e w') (hw : w.Sound) (hout : (w.timer t).queued = none)
    (harms : ¬ e.Arms t) :
    (w'.timer t).triggered = (w.timer t).triggered ∨
      w.made t = false ∧ (w'.timer t).triggered = true := by
  by_cases htouch : e.Touches w' t
  · cases h with
    | created r hr =>
      obtain rfl : _ = t := htouch
      rw [timer_create, if_pos rfl]
      exact Or.inr ⟨by simp [World.made], hr.triggered⟩
    | @adjusted u setting w' hadjust hmade =>
      obtain rfl : u = t := htouch
      obtain ⟨-, r, happly, rfl⟩ := apply_of_adjust hadjust
      rw [timer_setTimer, if_pos rfl]
      exact Or.inl (Timer.triggered_apply happly)
    | armed s triggered hrow hmade => exact absurd htouch harms
    | scheduled s triggered hr hnew => exact absurd htouch harms
    | cancelled s hts => exact Or.inl (triggered_cancelAll w s _ t)
    | idleStarted s =>
      obtain ⟨trigger, hmem⟩ := mem_idle_items.mp htouch
      rw [startIdle_eq, waiting_rouse] at hmem
      exact absurd hmem (hw.not_mem_waiting hout)
    | started htake =>
      obtain rfl : _ = t := htouch
      exact absurd rfl ((Step.started htake).stays_out hw hout id).2
    | settled s u start =>
      obtain rfl : u = t := htouch
      rw [timer_settle_of_not_active s start (by simp [hout])]
      exact Or.inl rfl
    | emptied htake =>
      obtain rfl : _ = t := htouch
      obtain ⟨kind, hkind, -⟩ := take_eq_idle htake
      have hqueued := ((queueOf?_eq_some_iff _ _ _ _).mp hkind).1
      rw [hout] at hqueued
      cases hqueued
    | _ => exact htouch.elim
  · exact Or.inl (by rw [(h.unchanged htouch).timer])

/-- A timer that leaves its queue is triggered, unless it is cancelled, which keeps its flag. -/
theorem Step.triggered_of_leaves (h : w.Step e w') (hw : w.Sound)
    (hqueued : (w.timer t).queued ≠ none) (hout : (w'.timer t).queued = none) :
    (w'.timer t).triggered = true ∨
      e.Cancels t ∧ (w'.timer t).triggered = (w.timer t).triggered := by
  by_cases htouch : e.Touches w' t
  · rcases h.touches_queued hw hqueued htouch with
      hremoves | ⟨s, trigger, rfl, rfl, hmem⟩ | ⟨s, start, rfl, rfl⟩
    · cases h with
      | cancelled s hts => exact Or.inr ⟨hremoves, triggered_cancelAll w s _ t⟩
      | started htake =>
        obtain rfl : _ = t := hremoves
        obtain ⟨kind, S, -, -, -, -, rfl⟩ := take_eq_started htake
        exact Or.inl (triggered_withdraw w _ _ kind)
      | emptied htake =>
        obtain rfl : _ = t := hremoves
        obtain ⟨kind, -, -, rfl⟩ := take_eq_idle htake
        exact Or.inl (triggered_withdraw w _ _ kind)
      | _ => exact hremoves.elim
    · rw [startIdle_eq, timer_rouse] at hout
      split at hout <;> exact absurd hout hqueued
    · obtain heq | heq := timer_settle w s t start <;> rw [heq] at hout <;> exact absurd hout hqueued
  · rw [(h.unchanged htouch).timer] at hout
    exact absurd hout hqueued

/-- A step after which a timer is adrift found it so, or cancelled it when it was live. -/
theorem Step.of_adrift (h : w.Step e w') (hw : w.Sound) (ht : w'.Adrift t) :
    (w.timer t).triggered = false ∧ ((w.Adrift t ∧ ¬ e.Arms t) ∨ e.Cancels t) := by
  obtain ⟨hlive, hout, -⟩ := ht
  have harms : ¬ e.Arms t := fun harms => by
    have hpending := h.pending_of_arms harms
    rw [pending_of_none hout] at hpending
    cases hpending
  by_cases hqueued : (w.timer t).queued = none
  · rcases h.triggered_of_out hw hqueued harms with hsame | ⟨-, htriggered⟩
    · rw [hsame] at hlive
      exact ⟨hlive, Or.inl ⟨⟨hlive, hw.lacks_iff.mpr hqueued⟩, harms⟩⟩
    · rw [hlive] at htriggered
      cases htriggered
  · rcases h.triggered_of_leaves hw hqueued hout with htriggered | ⟨hcancels, hsame⟩
    · rw [hlive] at htriggered
      cases htriggered
    · exact ⟨hsame.symm.trans hlive, Or.inr hcancels⟩

/-- A step leaves a timer adrift that it does not arm. -/
theorem Step.adrift (h : w.Step e w') (hw : w.Sound) (hmade : w.made t = true) (ht : w.Adrift t)
    (harms : ¬ e.Arms t) : w'.Adrift t := by
  obtain ⟨hlive, hout, -⟩ := ht
  refine ⟨?_, (h.sound hw).lacks_iff.mpr (h.stays_out hw hout harms).1⟩
  rcases h.triggered_of_out hw hout harms with hsame | ⟨hunmade, -⟩
  · exact hsame.trans hlive
  · rw [hmade] at hunmade
    cases hunmade

/-- A timer that is cancelled when it is live is adrift, and exists. -/
theorem Step.adrift_of_cancels (h : w.Step e w') (hw : w.Sound) (hcancels : e.Cancels t)
    (hlive : (w.timer t).triggered = false) : w'.made t = true ∧ w'.Adrift t := by
  have hout := h.cancels hw hcancels
  cases h with
  | cancelled s hts =>
    obtain ⟨kind, trigger, hmem⟩ := hts t hcancels
    have hmade : w.made t = true := hw.made (by simp [(hw.entry hmem).1])
    refine ⟨(Step.cancelled s hts).made hmade, ?_, (hw.cancelAll s _).lacks_iff.mpr hout⟩
    rw [triggered_cancelAll]
    exact hlive
  | _ => exact absurd hcancels List.not_mem_nil

/-- Along a path that begins where the timer is triggered, it comes to be adrift only by a
cancellation. -/
theorem Path.leftLive (h : w₁.Path ms w₂) (hw : w₁.Sound)
    (htriggered : (w₁.timer t).triggered = true) (ht : w₂.Adrift t) : LeftLive t ms := by
  induction h with
  | nil =>
    rw [ht.1] at htriggered
    cases htriggered
  | @cons rest w w' e hrest hstep ih =>
    obtain ⟨hlive, ⟨hadrift, harms⟩ | hcancels⟩ := hstep.of_adrift (hrest.sound hw).1 ht
    · exact (ih hadrift).cons harms
    · cases hrest with
      | nil =>
        rw [hlive] at htriggered
        cases htriggered
      | @cons earlier _ _ e' _ _ =>
        exact ⟨[], ⟨e, w'⟩, ⟨e', w⟩, earlier, rfl, hcancels, hlive,
          fun _ hm => absurd hm List.not_mem_nil⟩

theorem Path.adrift (h : w₁.Path ms w₂) (hw : w₁.Sound) (hmade : w₁.made t = true)
    (ht : w₁.Adrift t) (harms : ∀ m ∈ ms, ¬ m.event.Arms t) :
    w₂.made t = true ∧ w₂.Adrift t := by
  induction h with
  | nil => exact ⟨hmade, ht⟩
  | cons hrest hstep ih =>
    obtain ⟨hmade', ht'⟩ := ih fun m hm => harms m (List.mem_cons_of_mem _ hm)
    exact ⟨hstep.made hmade',
      hstep.adrift (hrest.sound hw).1 hmade' ht' (harms _ List.mem_cons_self)⟩

theorem Path.adrift_iff (h : w₁.Path ms w₂) (hw : w₁.Sound)
    (htriggered : (w₁.timer t).triggered = true) : w₂.Adrift t ↔ LeftLive t ms := by
  refine ⟨h.leftLive hw htriggered, ?_⟩
  rintro ⟨since, cancelling, before, earlier, rfl, hcancels, hlive, harms⟩
  obtain ⟨w', hpath, hsince⟩ := h.split
  cases hpath with
  | cons hbefore hstep =>
    have hbefore' := (hbefore.sound hw).1
    cases hbefore with
    | cons hrest hlast =>
      obtain ⟨hmade, hadrift⟩ := hstep.adrift_of_cancels hbefore' hcancels hlive
      exact (hsince.adrift (hstep.sound hbefore') hmade hadrift harms).2

end World

/-- Whatever operations are performed and whatever callbacks do, the timers whose flag is wrong are
those that were cancelled when they were live and have not been armed since. -/
theorem Reachable.flag_tells (h : Reachable r) : FlagTells r := by
  obtain ⟨w, hfresh, hruns⟩ := h.exists_runsTo
  have htriggered : ∀ t, (w.timer t).triggered = true := fun t => by rw [hfresh.timer]
  constructor
  · exact fun t => hruns.path.adrift_iff hfresh.sound (htriggered t)
  · intro later m earlier hsplit t
    exact (hruns.path_to hsplit).1.adrift_iff hfresh.sound (htriggered t)

section Revoked

/-- A run to look at. Of four timers one is never armed, one fires at second 1, one is cancelled, and
one is cancelled along with all others of its callback. -/
def revokedRun : Run :=
  performAll (fun _ _ _ _ => .finish .succeeded) 1
    [.create,
      .schedule 0 (.instant (.ofSeconds 1)) none ⟨0, none⟩ [],
      .schedule 0 (.instant (.ofSeconds 5)) none ⟨0, none⟩ [],
      .schedule 0 (.instant (.ofSeconds 6)) none ⟨1, none⟩ [],
      .changeHost (.setNow (.ofSeconds 1)),
      .drain 0 (.named "main"),
      .cancel 0 ⟨2⟩,
      .cancelEvery 0 ⟨1, none⟩]
    { world := emptyWorld }

theorem reachable_revokedRun : Reachable revokedRun :=
  (Reachable.start fresh_emptyWorld).performAll _ _ _

attribute [irreducible] revokedRun

/-- The flag is right about the timer that has fired, and wrong about one that was cancelled. -/
theorem flag_tells_revokedRun :
    ¬ LeftLive ⟨1⟩ revokedRun.journal ∧ LeftLive ⟨2⟩ revokedRun.journal := by
  have hlaw := reachable_revokedRun.flag_tells
  have hsound := reachable_revokedRun.sound.1
  have htriggered : (revokedRun.world.timer ⟨1⟩).triggered = true := by decide +kernel
  have hlive : (revokedRun.world.timer ⟨2⟩).triggered = false := by decide +kernel
  have hout : (revokedRun.world.timer ⟨2⟩).queued = none := by decide +kernel
  refine ⟨fun hleft => ?_, (hlaw.adrift_iff ⟨2⟩).mp ⟨hlive, hsound.lacks_iff.mpr hout⟩⟩
  have hadrift := (hlaw.adrift_iff ⟨1⟩).mpr hleft
  rw [hadrift.1] at htriggered
  cases htriggered

/-- No timer is queued any more, and only the first two are triggered. -/
theorem revokedRun_adrift : Reachable revokedRun ∧
    (∀ i < 4, revokedRun.world.Lacks ⟨i⟩) ∧
    (revokedRun.world.timer ⟨0⟩).triggered = true ∧
    (revokedRun.world.timer ⟨1⟩).triggered = true ∧
    (revokedRun.world.timer ⟨2⟩).triggered = false ∧
    (revokedRun.world.timer ⟨3⟩).triggered = false := by
  have hout : ∀ i < 4, (revokedRun.world.timer ⟨i⟩).queued = none := by decide +kernel
  exact ⟨reachable_revokedRun,
    fun i hi => reachable_revokedRun.sound.1.lacks_iff.mpr (hout i hi), by decide +kernel,
    by decide +kernel, by decide +kernel, by decide +kernel⟩

end Revoked

end Timekeeping
