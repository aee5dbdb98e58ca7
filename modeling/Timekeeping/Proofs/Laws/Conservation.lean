import Timekeeping.Proofs.Run.Reachability
import Timekeeping.Proofs.Run.Tallies
import Timekeeping.Proofs.State.Repeats

/-!
Arming is conserved. A timer that does not repeat enters a queue only when it is
armed, and leaves it only to run or because it is cancelled. So at every moment
of a run the armings up to then are the runs, the cancellations and what is still
queued.
-/
namespace Timekeeping

namespace World

/-- One if the timer is in a queue. -/
def pending (w : World) (t : TimerId) : Nat := if (w.timer t).queued = none then 0 else 1

/-- The world to which moments lead that begin in this one. -/
def endOf (w : World) : List Moment → World
  | [] => w
  | m :: _ => m.world

end World

/-- An operation queues the timer: it arms one that exists, or makes one and arms it. -/
inductive Requests (t : TimerId) (r r' : Run) : Prop
  | arm {call : Caller} {s : SchedulerId} {triggered : Bool}
      (h : perform call (.arm s t triggered) r = .ok .done r') : Requests t r r'
  | armIdle {call : Caller} {s : SchedulerId} {immediate : Bool}
      (h : perform call (.armIdle s t immediate) r = .ok .done r') : Requests t r r'
  | schedule {call : Caller} {s : SchedulerId} {timing : Timing} {interval : Option Duration}
      {callback : Callback} {args : List Json}
      (h : perform call (.schedule s timing interval callback args) r = .ok (.timer t) r') :
      Requests t r r'
  | scheduleWhenIdle {call : Caller} {s : SchedulerId} {timing : Timing} {again : Bool}
      {callback : Callback} {args : List Json}
      (h : perform call (.scheduleWhenIdle s timing again callback args) r = .ok (.timer t) r') :
      Requests t r r'

variable {call : Caller} {e : Event} {w w' w₁ w₂ : World} {s : SchedulerId} {t : TimerId}
  {ms : List Moment} {r r' : Run}

section Requests

theorem performKnown_of_perform {operation : Operation} {reply : Reply}
    (h : perform call operation r = .ok reply r') (hreply : reply ≠ .noSuchTimer) :
    performKnown call operation r = .ok reply r' := by
  unfold perform at h
  rw [Act.world_bind] at h
  split at h
  · exact h
  · cases h
    exact absurd rfl hreply

/-- What is refused makes no timer. -/
theorem made_of_refuse {made : Except World.Refusal (TimerId × World)} (event : TimerId → Event)
    (h : (match made with
      | .ok (u, w) => do
        Act.record (event u) w
        return .timer u
      | .error e => refuse e : Act Reply) r = .ok (.timer t) r') :
    ∃ w, made = .ok (t, w) ∧ r' = r.advance (event t) w := by
  cases made with
  | ok made =>
    cases h
    exact ⟨_, rfl, rfl⟩
  | error refusal => cases refusal <;> cases h

theorem prepare_of_perform {timing : Timing} {interval : Option Duration} {callback : Callback}
    {args : List Json}
    (h : perform call (.prepare s timing interval callback args) r = .ok (.timer t) r') :
    ∃ w, r.world.prepare s timing interval callback args = .ok (t, w) ∧
      r' = r.advance (.created t) w :=
  made_of_refuse .created (performKnown_of_perform h (by simp))

theorem schedule_of_perform {timing : Timing} {interval : Option Duration} {callback : Callback}
    {args : List Json}
    (h : perform call (.schedule s timing interval callback args) r = .ok (.timer t) r') :
    ∃ w, r.world.schedule s timing interval callback args = .ok (t, w) ∧
      r' = r.advance (.armed s t .active false) w :=
  made_of_refuse (.armed s · .active false) (performKnown_of_perform h (by simp))

/-- The request is in the journal as one. -/
theorem Requests.exists_moment (h : Requests t r r') :
    ∃ m, r'.journal = m :: r.journal ∧ r'.world = m.world ∧ m.event.Arms t := by
  cases h with
  | @arm call s triggered h =>
    have hknown := performKnown_of_perform h (by simp)
    unfold performKnown at hknown
    dsimp only at hknown
    rw [Act.world_bind] at hknown
    cases harm : r.world.arm s t triggered <;> rw [harm] at hknown <;> cases hknown
    exact ⟨_, rfl, rfl, rfl⟩
  | @armIdle call s immediate h =>
    have hknown := performKnown_of_perform h (by simp)
    unfold performKnown at hknown
    dsimp only at hknown
    rw [Act.world_bind] at hknown
    cases harm : r.world.armIdle s t immediate <;> rw [harm] at hknown <;> cases hknown
    exact ⟨_, rfl, rfl, rfl⟩
  | @schedule call s timing interval callback args h =>
    obtain ⟨w, -, rfl⟩ := schedule_of_perform h
    exact ⟨_, rfl, rfl, rfl⟩
  | @scheduleWhenIdle call s timing again callback args h =>
    have hknown := performKnown_of_perform h (by simp)
    unfold performKnown at hknown
    dsimp only at hknown
    rw [Act.world_bind] at hknown
    cases hmade : r.world.scheduleWhenIdle s timing again callback args <;>
      rw [hmade] at hknown <;> cases hknown
    exact ⟨_, rfl, rfl, rfl⟩

end Requests

namespace World

theorem pending_of_none (h : (w.timer t).queued = none) : w.pending t = 0 := if_pos h

theorem pending_of_some (kind : QueueKind) (h : (w.timer t).queued = some kind) :
    w.pending t = 1 := if_neg (by simp [h])

theorem pending_congr (h : (w'.timer t).queued = (w.timer t).queued) :
    w'.pending t = w.pending t := by
  unfold pending
  rw [h]

theorem Sound.pending_eq_one_iff (h : w.Sound) :
    w.pending t = 1 ↔ ∃ s, t ∈ (w.scheduler s).items := by
  unfold pending
  split
  · rename_i hnone
    simpa using h.queued_eq_none_iff.mp hnone
  · rename_i hsome
    simpa [h.queued_eq_none_iff] using hsome

/-- What is armed is in a queue. -/
theorem Step.pending_of_arms (h : w.Step e w') (ht : e.Arms t) : w'.pending t = 1 := by
  cases e with
  | armed s u kind triggered =>
    obtain rfl : u = t := ht
    obtain ⟨w₀, trigger, -, rfl⟩ := h.of_armed
    exact pending_of_some trigger.kind (by rw [timer_enqueue, if_pos rfl])
  | _ => exact ht.elim

/-- What enters a queue in a step was armed, and what leaves one starts or is cancelled, if the
timer does not repeat. -/
theorem Step.flow (h : w.Step e w') (hw : w.Sound) (honce : (w.timer t).interval = none) :
    (if e.Arms t then 1 else 0) + w.pending t =
      (if e.Starts t then 1 else 0) + (if e.Cancels t then 1 else 0) + w'.pending t := by
  by_cases htouch : e.Touches w' t
  · cases h with
    | created r hr =>
      obtain rfl : _ = t := htouch
      rw [pending_of_none hw.queued_new, pending_of_none (by rw [timer_create, if_pos rfl]; exact hr.queued)]
      rfl
    | adjusted hadjust =>
      obtain rfl : _ = t := htouch
      obtain ⟨hnone, r, hr, rfl⟩ := adjust_eq_ok hadjust
      rw [pending_of_none hnone, pending_of_none (by rw [timer_setTimer, if_pos rfl]; exact hr)]
      rfl
    | @armed s u trigger triggered hrow hmade =>
      have harms : Event.Arms (.armed s u trigger.kind triggered) t := htouch
      rw [(Step.armed s triggered hrow hmade).pending_of_arms harms, if_pos harms]
      obtain rfl : u = t := htouch
      rw [pending_of_none hrow.queued]
      rfl
    | @scheduled s r trigger triggered hr hnew =>
      have harms : Event.Arms (.armed s ⟨w.created⟩ trigger.kind triggered) t := htouch
      rw [(Step.scheduled s triggered hr hnew).pending_of_arms harms, if_pos harms]
      obtain rfl : _ = t := htouch
      rw [pending_of_none hw.queued_new]
      rfl
    | @cancelled s ts hts =>
      obtain ⟨kind, trigger, hmem⟩ := hts t htouch
      have hcancels : Event.Cancels (.cancelled s ts) t := htouch
      rw [pending_of_some _ (hw.entry hmem).1, pending_of_none (queued_cancelAll hw htouch hmem)]
      simp [Event.Arms, Event.Starts, hcancels]
    | idleStarted s =>
      have hqueued : ((w.startIdle s).timer t).queued = (w.timer t).queued := by
        rw [startIdle_eq, timer_rouse]
        split <;> rfl
      rw [pending_congr hqueued]
      rfl
    | started htake =>
      obtain rfl : _ = t := htouch
      obtain ⟨kind, S, hkind, -, -, -, rfl⟩ := take_eq_started htake
      rw [pending_of_some _ ((queueOf?_eq_some_iff _ _ _ _).mp hkind).1, pending_of_none]
      · simp [Event.Arms, Event.Starts, Event.Cancels, Event.withdrawn]
      · exact queued_withdraw_of_once honce
    | settled s u start =>
      obtain rfl : _ = t := htouch
      have hqueued : ((w.settle s u start).timer u).queued = (w.timer u).queued := by
        obtain heq | heq := timer_settle w s u start <;> rw [heq]
      rw [pending_congr hqueued]
      rfl
    | emptied htake =>
      obtain ⟨kind, hkind, hnone, -⟩ := take_eq_idle htake
      have hqueued := ((queueOf?_eq_some_iff _ _ _ _).mp hkind).1
      exact absurd hnone (hw.callback (by simp [hqueued]))
    | _ => exact htouch.elim
  · have hsame := h.unchanged htouch
    rw [if_neg fun harm => htouch harm.touches, if_neg fun hstart => htouch hstart.touches,
      if_neg fun hcancel => htouch hcancel.touches, pending_congr (congrArg _ hsame.timer)]

/-- Along a path the armings of a timer that does not repeat are its runs, its cancellations and
what they leave in a queue. -/
theorem Path.flow (h : w₁.Path ms w₂) (hw : w₁.Sound) (hfirst : (w₁.timer t).interval = none)
    (honce : ∀ m ∈ ms, (m.world.timer t).interval = none) :
    armings t ms + w₁.pending t = starts t ms + cancellations t ms + w₂.pending t ∧
      (w₂.timer t).interval = none := by
  induction h with
  | nil => exact ⟨rfl, hfirst⟩
  | cons hrest hstep ih =>
    obtain ⟨hsum, honce'⟩ := ih fun m hm => honce m (List.mem_cons_of_mem _ hm)
    have hflow := hstep.flow (hrest.sound hw).1 honce'
    refine ⟨?_, honce _ List.mem_cons_self⟩
    simp only [armings, starts, cancellations, List.countP_cons, decide_eq_true_eq] at hsum ⊢
    omega

theorem Path.endOf_eq (h : w₁.Path ms w₂) : w₁.endOf ms = w₂ := by
  cases h with
  | nil => rfl
  | cons hrest hstep => rfl

end World

/-- From one arming to the next, a timer that does not repeat runs once, is cancelled once, or is
still queued. -/
theorem Reachable.one_end (h : Reachable r)
    (honce : ∀ m ∈ r.journal, (m.world.timer t).interval = none)
    {later between earlier : List Moment} {m : Moment}
    (hjournal : r.journal = later ++ (between ++ m :: earlier)) (harms : m.event.Arms t)
    (hbetween : ∀ m' ∈ between, ¬ m'.event.Arms t) :
    starts t between + cancellations t between + (m.world.endOf between).pending t = 1 := by
  have hjournal' : r.journal = (later ++ between) ++ m :: earlier := by
    rw [hjournal, List.append_assoc]
  obtain ⟨w, hfresh, hearlier, hafter⟩ := h.path_to hjournal'
  obtain ⟨w', hpath, -⟩ := hafter.split
  have hsound := (hearlier.sound hfresh.sound).1
  have hpending : m.world.pending t = 1 := by
    cases hearlier with
    | cons hrest hstep => exact hstep.pending_of_arms harms
  have hflow := (hpath.flow hsound (honce m (by simp [hjournal]))
    fun m' hm' => honce m' (by simp [hjournal, hm'])).1
  rw [hpath.endOf_eq, ← hflow, armings_eq_zero hbetween, hpending]

/-- The armings of a timer in a run are accounted for: all together at the end of the run and at
every moment up to then, and each of them until the next. -/
structure Conserved (t : TimerId) (r : Run) : Prop where
  balance : armings t r.journal =
    starts t r.journal + cancellations t r.journal + r.world.pending t
  always : ∀ {later m earlier}, r.journal = later ++ m :: earlier →
    armings t (m :: earlier) =
      starts t (m :: earlier) + cancellations t (m :: earlier) + m.world.pending t
  pending : r.world.pending t = 1 ↔ ∃ s, t ∈ (r.world.scheduler s).items
  pending_always : ∀ m ∈ r.journal, m.world.pending t = 1 ↔ ∃ s, t ∈ (m.world.scheduler s).items
  one_end : ∀ {r₁ r₂ later between}, Requests t r₁ r₂ →
    r.journal = later ++ (between ++ r₂.journal) → (∀ m ∈ between, ¬ m.event.Arms t) →
    starts t between + cancellations t between + (r₂.world.endOf between).pending t = 1

/-- Whatever callbacks do, every arming of a timer that never repeats is accounted for. -/
theorem Reachable.armings_conserved (h : Reachable r)
    (honce : ∀ m ∈ r.journal, (m.world.timer t).interval = none) : Conserved t r := by
  obtain ⟨w, hfresh, hpath⟩ := h.path
  have hfirst : (w.timer t).interval = none := by rw [hfresh.timer]
  have hout : w.pending t = 0 := World.pending_of_none (by rw [hfresh.timer])
  have hbalance : ∀ {ms w'}, w.Path ms w' → (∀ m ∈ ms, (m.world.timer t).interval = none) →
      armings t ms = starts t ms + cancellations t ms + w'.pending t := by
    intro ms w' hpath honce
    have hflow := (hpath.flow hfresh.sound hfirst honce).1
    omega
  refine ⟨hbalance hpath honce, ?_, h.sound.1.pending_eq_one_iff,
    fun m hm => (h.sound.2 m hm).pending_eq_one_iff, ?_⟩
  · intro later m earlier hjournal
    rw [hjournal] at hpath honce
    obtain ⟨w', hearlier, -⟩ := hpath.split
    have hend := hearlier.endOf_eq
    subst hend
    exact hbalance hearlier fun m' hm' => honce m' (List.mem_append_right _ hm')
  · intro r₁ r₂ later between hrequest hjournal hbetween
    obtain ⟨m, hmoment, hworld, harms⟩ := hrequest.exists_moment
    rw [hmoment] at hjournal
    rw [hworld]
    exact h.one_end honce hjournal harms hbetween

/-- A timer that is armed once and then cancelled by the callback of another one. -/
theorem armings_conserved_sampleRun :
    (∀ m ∈ sampleRun.journal, (m.world.timer ⟨3⟩).interval = none) ∧
      armings ⟨3⟩ sampleRun.journal = 1 ∧ Conserved ⟨3⟩ sampleRun := by
  have honce : ∀ m ∈ sampleRun.journal, (m.world.timer ⟨3⟩).interval = none := by decide +kernel
  exact ⟨honce, by decide +kernel, reachable_sampleRun.armings_conserved honce⟩

end Timekeeping
