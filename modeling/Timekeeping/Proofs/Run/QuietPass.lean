import Timekeeping.Proofs.Run.FireCalls
import Timekeeping.Proofs.Run.QuietFiring

/-!
Passes whose callbacks touch no timer and come back. A timer that is due is run
once by such a pass, however many others are, and one that is not due is left as
it is.
-/
namespace Timekeeping

open Act

/-- Part of a pass leaves the clock and a timer alone and does not start it. -/
structure Spares (t : TimerId) (r r' : Run) : Prop where
  now : r'.world.host.now = r.world.host.now
  config : ∀ s, (r'.world.scheduler s).config = (r.world.scheduler s).config
  timer : World.Unchanged r.world r'.world t
  starts : starts t r'.journal = starts t r.journal

/-- Part of a pass runs a timer once, which is live under its next trigger then. -/
structure RunsThrough (s : SchedulerId) (t : TimerId) (time : Instant) (interval : Duration)
    (r r' : Run) : Prop where
  now : r'.world.host.now = r.world.host.now
  config : ∀ s', (r'.world.scheduler s').config = (r.world.scheduler s').config
  starts : starts t r'.journal = starts t r.journal + 1
  ready : r'.world.Ready s (t, r.world.nextTrigger s (r.world.timer t) interval (.onClock time))
  interval : (r'.world.timer t).interval = some interval
  aligned : (r'.world.timer t).aligned = (r.world.timer t).aligned

variable {call : Caller} {pass : Nat} {s : SchedulerId} {t u : TimerId} {trigger : Trigger}
  {time : Instant} {interval : Duration} {p : Snapshot} {cs : List FireCall}
  {result : Except Interrupt (Option Duration)} {r r' r₁ r₂ r₃ stop : Run}

namespace Spares

theorem refl (t : TimerId) (r : Run) : Spares t r r := ⟨rfl, fun _ => rfl, .refl _ t, rfl⟩

theorem trans (h : Spares t r₁ r₂) (h' : Spares t r₂ r₃) : Spares t r₁ r₃ :=
  ⟨h'.now.trans h.now, fun s => (h'.config s).trans (h.config s), h.timer.trans h'.timer,
    h'.starts.trans h.starts⟩

/-- The moments of the pass itself change nothing. -/
theorem advance (t : TimerId) (r : Run) {e : Event} (he : ¬ e.Starts t) :
    Spares t r (r.advance e r.world) :=
  ⟨rfl, fun _ => rfl, .refl _ t, by simp [Run.advance, starts_cons, he]⟩

theorem ready (h : Spares t r r') (hready : r.world.Ready s (t, trigger)) :
    r'.world.Ready s (t, trigger) :=
  ⟨by rw [h.timer.timer]; exact hready.1, (h.timer.waiting s _ _).mpr hready.2⟩

theorem live_iff (h : Spares t r r') {x : TimerId × Trigger} (hx : x.1 = t) :
    r'.world.Live x ↔ r.world.Live x := by
  unfold World.Live
  rw [hx, h.timer.timer]

theorem nextTrigger_eq (h : Spares t r r') (s : SchedulerId) :
    r'.world.nextTrigger s (r'.world.timer t) interval trigger =
      r.world.nextTrigger s (r.world.timer t) interval trigger := by
  rw [h.timer.timer, World.nextTrigger_congr h.now (h.config s)]

end Spares

namespace RunsThrough

theorem after_spares (h : Spares t r₁ r₂) (h' : RunsThrough s t time interval r₂ r₃) :
    RunsThrough s t time interval r₁ r₃ where
  now := h'.now.trans h.now
  config s' := (h'.config s').trans (h.config s')
  starts := by rw [h'.starts, h.starts]
  ready := h.nextTrigger_eq s ▸ h'.ready
  interval := h'.interval
  aligned := by rw [h'.aligned, h.timer.timer]

theorem then_spares (h : RunsThrough s t time interval r₁ r₂) (h' : Spares t r₂ r₃) :
    RunsThrough s t time interval r₁ r₃ where
  now := h'.now.trans h.now
  config s' := (h'.config s').trans (h.config s')
  starts := by rw [h'.starts, h.starts]
  ready := h'.ready h.ready
  interval := by rw [h'.timer.timer, h.interval]
  aligned := by rw [h'.timer.timer, h.aligned]

end RunsThrough

theorem Fired.runsThrough (h : Fired s t r r')
    (htrigger : (r.world.timer t).trigger = some (.onClock time))
    (hinterval : (r.world.timer t).interval = some interval) :
    RunsThrough s t time interval r r' :=
  have hagain := h.again htrigger hinterval
  ⟨h.now, h.config, by rw [h.starts, if_pos rfl], hagain.1, hagain.2.1, hagain.2.2⟩

theorem Fired.spares (h : Fired s u r r') (hne : u ≠ t) : Spares t r r' :=
  ⟨h.now, h.config, h.others t hne, by rw [h.starts, if_neg hne, Nat.add_zero]⟩

/-- A firing returns: of a timer that does not wait at once, and of others with their callbacks. -/
theorem World.Calm.not_broken (hcall : call.Keeps (Run.Continues none))
    (h : r.world.Calm call s) {i : Interrupt} (hfire : Timekeeping.fire call s u r = .error i r') :
    False := by
  cases hkind : r.world.queueOf? s u with
  | none => cases hfire.symm.trans (fire_of_absent call hkind)
  | some kind =>
    obtain ⟨-, trigger, hu⟩ := (queueOf?_eq_some_iff _ _ _ _).mp hkind
    obtain ⟨outcome, r', hreturned, -⟩ := h.fire hcall hu
    cases hfire.symm.trans hreturned

/-- Firing one timer spares all others. -/
theorem World.Calm.fire_spares (hcall : call.Keeps (Run.Continues none))
    (h : r.world.Calm call s) (hne : u ≠ t) {outcome : FiringOutcome}
    (hfire : Timekeeping.fire call s u r = .ok outcome r') :
    r'.world.Calm call s ∧ Spares t r r' := by
  cases hkind : r.world.queueOf? s u with
  | none =>
    cases hfire.symm.trans (fire_of_absent call hkind)
    exact ⟨h, .refl t r⟩
  | some kind =>
    obtain ⟨-, trigger, hu⟩ := (queueOf?_eq_some_iff _ _ _ _).mp hkind
    obtain ⟨outcome, r', hreturned, hcalm, hfired⟩ := h.fire hcall hu
    cases hfire.symm.trans hreturned
    exact ⟨hcalm, hfired.spares hne⟩

theorem Spares.picking (t : TimerId) (r : Run) (pass : Nat) (s : SchedulerId) (p : Snapshot)
    (next : Snapshot.Pick) : Spares t r (r.picking pass s p next) :=
  (Spares.advance t r id).trans (.advance t _ id)

/-- A pass that serves a snapshot spares a timer that it finds neither live nor due. -/
theorem Serves.spares (h : Serves call pass s r p cs result stop)
    (hcall : call.Keeps (Run.Continues none)) (hcalm : r.world.Calm call s)
    (hobserved : p.Observed)
    (hskip : ∀ kind, ∀ x ∈ p.marks kind, x.1 = t → r.world.Live x → 0 < p.lead x.2) :
    (∃ untilNext, result = .ok untilNext) ∧ stop.world.Calm call s ∧ Spares t r stop := by
  -- Each turn fires another timer, and what it leaves of the snapshot is as harmless as before.
  induction h with
  | spent hsize => exact ⟨⟨_, rfl⟩, hcalm, .refl t _⟩
  | stopped hstop => exact ⟨⟨_, rfl⟩, hcalm, .advance t _ id⟩
  | @broken r back p next i hpick hdue hfire =>
    exact (World.Calm.not_broken (r := r.picking pass s p next) hcall hcalm hfire).elim
  | @turned r back stop p next outcome cs result hpick hdue hfire _ ih =>
    obtain ⟨htakes, hwithin⟩ := Snapshot.takes_of_skip hobserved hpick
    have hne : next.timer ≠ t := by
      rintro rfl
      have hlead := hskip _ _ ((p.skip_within r.world |>.sublist _).subset htakes.mem) rfl
        (Snapshot.live_of_skip_eq_cons htakes.front)
      rw [← (p.skip_within r.world).lead] at hlead
      exact absurd (htakes.lead_le hdue) (Int.not_le.mpr hlead)
    obtain ⟨hcalm', hspares⟩ :=
      World.Calm.fire_spares (r := r.picking pass s p next) hcall hcalm hne hfire
    have hfirst : Spares t r back := (Spares.picking t r pass s p next).trans hspares
    have hskip' : ∀ kind, ∀ x ∈ next.rest.marks kind, x.1 = t → back.world.Live x →
        0 < next.rest.lead x.2 := by
      intro kind x hx hxt hlive
      rw [hwithin.lead]
      exact hskip kind x ((hwithin.sublist kind).subset hx) hxt ((hfirst.live_iff hxt).mp hlive)
    obtain ⟨hreturned, hcalm'', hspares'⟩ := ih hcalm' (hwithin.observed hobserved) hskip'
    exact ⟨hreturned, hcalm'', hfirst.trans hspares'⟩

/-- A pass that serves a snapshot runs a timer of the active queue that is live and due, and only
once. -/
theorem Serves.runs (h : Serves call pass s r p cs result stop)
    (hcall : call.Keeps (Run.Continues none)) (hcalm : r.world.Calm call s) (hobserved : p.Observed)
    (hsorted : (p.marks .active).Pairwise fun a b => p.lead a.2 ≤ p.lead b.2)
    (hdistinct : p.Distinct) (hmark : (t, .onClock time) ∈ p.marks .active)
    (hready : r.world.Ready s (t, .onClock time)) (hlead : p.lead (.onClock time) ≤ 0)
    (hinterval : (r.world.timer t).interval = some interval) :
    (∃ untilNext, result = .ok untilNext) ∧ stop.world.Calm call s ∧
      RunsThrough s t time interval r stop := by
  induction h with
  | @spent r p hsize =>
    rw [Snapshot.size_eq] at hsize
    have hlength := List.length_pos_of_mem hmark
    omega
  | @stopped r p hstop =>
    have hskip := p.skip_within r.world
    have hleft : (t, .onClock time) ∈ (p.skip r.world).marks .active :=
      (Snapshot.stale_or_mem_skip r.world hmark).resolve_left fun hstale =>
        hstale.2 (hready.live hcalm.sound)
    cases hpick : (p.skip r.world).pick? with
    | none =>
      rw [Snapshot.marks_of_pick?_eq_none (hskip.observed hobserved) hpick] at hleft
      cases hleft
    | some next =>
      obtain ⟨htakes, -⟩ := Snapshot.takes_of_skip hobserved hpick
      have hpositive := htakes.positive (hskip.pairwise hsorted) (hstop next hpick) hleft
      rw [hskip.lead] at hpositive
      exact absurd hlead (Int.not_le.mpr hpositive)
  | @broken r back p next i hpick hdue hfire =>
    exact (World.Calm.not_broken (r := r.picking pass s p next) hcall hcalm hfire).elim
  | @turned r back stop p next outcome cs result hpick hdue hfire hrest ih =>
    have hskip := p.skip_within r.world
    obtain ⟨htakes, hwithin⟩ := Snapshot.takes_of_skip hobserved hpick
    have hleft : (t, .onClock time) ∈ (p.skip r.world).marks .active :=
      (Snapshot.stale_or_mem_skip r.world hmark).resolve_left fun hstale =>
        hstale.2 (hready.live hcalm.sound)
    have hpicking := Spares.picking t r pass s p next
    -- This turn is the timer's, and the rest spares it, or it spares the timer, whose turn comes.
    rcases htakes.mem_cases hleft with hnext | hlater
    · obtain ⟨rfl, -⟩ := Prod.mk.inj hnext
      obtain ⟨outcome', back', hfire', hcalm', hfired⟩ :=
        World.Calm.fire (r := r.picking pass s p next) hcall hcalm hready.2
      cases hfire.symm.trans hfire'
      have hgone : ∀ kind, ∀ x ∈ next.rest.marks kind, x.1 = next.timer → back.world.Live x →
          0 < next.rest.lead x.2 := fun kind x hx hxt =>
        absurd hxt (htakes.ne_of_mem (hskip.distinct hdistinct) hx)
      obtain ⟨hreturned, hcalm'', hspares⟩ :=
        hrest.spares hcall hcalm' (hwithin.observed hobserved) hgone
      refine ⟨hreturned, hcalm'', .after_spares hpicking ?_⟩
      exact (hfired.runsThrough (hcalm.sound.entry hready.2).2 hinterval).then_spares hspares
    · have hne := (htakes.ne_of_mem (hskip.distinct hdistinct) hlater).symm
      obtain ⟨hcalm', hspares⟩ :=
        World.Calm.fire_spares (r := r.picking pass s p next) hcall hcalm hne hfire
      have hfirst : Spares t r back := hpicking.trans hspares
      obtain ⟨hreturned, hcalm'', hruns⟩ := ih hcalm' (hwithin.observed hobserved)
        (hwithin.pairwise hsorted) (hwithin.distinct hdistinct) hlater (hfirst.ready hready)
        (by rw [hwithin.lead]; exact hlead) (by rw [hfirst.timer.timer]; exact hinterval)
      exact ⟨hreturned, hcalm'', .after_spares hfirst hruns⟩

section Drain

variable {loop : LoopId}

theorem World.Calm.observing (h : r.world.Calm call s) (loop : LoopId) :
    (r.observing s loop).world.Calm call s := by
  refine h.of_mem (h.sound.observed s loop) ((SameFrame.woken r.world s loop).config s)
    (fun u => ?_) (fun {kind x} hx => ?_)
  · change ((r.world.observed s loop).timer u).callback = _
    obtain heq | ⟨-, heq⟩ := timer_observed r.world s loop u <;> rw [heq]
  · change x ∈ (r.world.observed s loop).waiting s kind at hx
    rw [waiting_observed] at hx
    exact Or.inl hx

/-- A timer of the active queue does not become live because the host is idle. -/
theorem Spares.observing (h : r.world.Sound) (hwaits : (t, trigger) ∈ r.world.waiting s .active)
    (loop : LoopId) : Spares t r (r.observing s loop) where
  now := congrArg Host.now (World.SameFrame.woken r.world s loop).host
  config := (World.SameFrame.woken r.world s loop).config
  timer := by
    refine ⟨?_, fun s' kind trigger' => ?_⟩
    · refine (World.timer_observed r.world s loop t).resolve_right fun ⟨hidle, _⟩ => ?_
      obtain ⟨trigger', hmem⟩ := World.mem_idle_items.mp hidle
      obtain ⟨-, hkind, -⟩ := h.eq_of_mem_waiting hwaits hmem
      cases hkind
    · change _ ∈ (r.world.observed s loop).waiting s' kind ↔ _
      rw [World.waiting_observed]
  starts := by
    have hwaking : Timekeeping.starts t (r.world.waking s loop) = 0 := by
      unfold World.waking
      split <;> rfl
    have hbegan : Timekeeping.starts t (r.observing s loop).journal =
        Timekeeping.starts t (r.world.waking s loop ++ r.journal) := starts_cons t _ _
    rw [hbegan, starts_append, hwaking, Nat.zero_add]

/-- A pass runs a repeating timer if it is due and spares it if not. -/
theorem World.Calm.drain (hcall : call.Keeps (Run.Continues none)) (h : r.world.Calm call s)
    (hready : r.world.Ready s (t, .onClock time))
    (hinterval : (r.world.timer t).interval = some interval) (loop : LoopId) :
    ∃ report r', Timekeeping.drain call s loop r = .ok report r' ∧ r'.world.Calm call s ∧
      (time.total ≤ r.world.host.now.total → RunsThrough s t time interval r r') ∧
      (r.world.host.now.total < time.total → Spares t r r') := by
  have hcalm := h.observing loop
  have hspares := Spares.observing h.sound hready.2 loop
  have hready' : (r.observing s loop).world.Ready s (t, .onClock time) := hspares.ready hready
  have hobserved : (r.snapshot s loop).Observed := Snapshot.observed_ofWorld _ _ _
  have hmark : (t, .onClock time) ∈ (r.snapshot s loop).marks .active := hready'.2
  have hlead : (r.snapshot s loop).lead (.onClock time) =
      time.total - r.world.host.now.total := by
    change time.total - (r.observing s loop).world.host.now.total = _
    rw [hspares.now]
  obtain ⟨cs, result, stop, hserves, hdrain⟩ := serves_drain call s loop r
  have hend : ∀ report, Spares t stop (stop.advance (.passEnded r.passes s loop report) stop.world) :=
    fun report => .advance t stop id
  by_cases hdue : time.total ≤ r.world.host.now.total
  · obtain ⟨⟨untilNext, rfl⟩, hcalm', hruns⟩ := hserves.runs hcall hcalm hobserved
      (Snapshot.pairwise_active_ofWorld _ _ _ hcalm.sound hcalm.normal)
      (Snapshot.distinct_ofWorld _ _ _ hcalm.sound) hmark hready' (by omega)
      (by rw [hspares.timer.timer]; exact hinterval)
    refine ⟨_, _, hdrain, hcalm', fun _ => ?_, fun hlt => by omega⟩
    exact .after_spares hspares (hruns.then_spares (hend _))
  · have hskip : ∀ kind, ∀ x ∈ (r.snapshot s loop).marks kind, x.1 = t →
        (r.observing s loop).world.Live x → 0 < (r.snapshot s loop).lead x.2 := by
      rintro kind ⟨u, trigger⟩ hx rfl hlive
      obtain rfl : Trigger.onClock time = trigger :=
        Option.some.inj ((hcalm.sound.entry hready'.2).2.symm.trans hlive.2.2)
      rw [hlead]
      omega
    obtain ⟨⟨untilNext, rfl⟩, hcalm', hspares'⟩ := hserves.spares hcall hcalm hobserved hskip
    exact ⟨_, _, hdrain, hcalm', fun hle => absurd hle hdue,
      fun _ => (hspares.trans hspares').trans (hend _)⟩

end Drain

end Timekeeping
