import Timekeeping.Run.Pass
import Timekeeping.Proofs.Run.Steps
import Timekeeping.Proofs.State.Frames

/-!
What a pass does before it looks at the queues, and what a loop remembers from
one pass to the next. Timers and queues have no part in either: the host changes
by its own events alone, and the memory of a loop when it begins a pass.
-/
namespace Timekeeping

open Act

namespace Event

/-- The host after an event. -/
def hostAfter : Event → Host → Host
  | hostChanged change, h => h.apply change
  | _, h => h

/-- Whether a loop remembers the host as idle after an event, if it did or did not before. -/
def recalls (loop : LoopId) : Event → Bool → Bool
  | passBegan _ _ loop' idleFor, before => if loop' = loop then idleFor.isSome else before
  | pollBegan _, before => if loop = .poller then false else before
  | _, before => before

/-- What a loop sees of the host when it begins a pass. -/
def sees? (loop : LoopId) : Event → Option (Option Duration)
  | passBegan _ _ loop' idleFor => if loop' = loop then some idleFor else none
  | _ => none

/-- The loop that begins without memory: only that of a poller does, with each poller. -/
def renewed? : Event → Option LoopId
  | pollBegan _ => some .poller
  | _ => none

def Renews (loop : LoopId) (e : Event) : Prop := e.renewed? = some loop

instance (loop : LoopId) (e : Event) : Decidable (e.Renews loop) :=
  inferInstanceAs (Decidable (e.renewed? = some loop))

variable {loop : LoopId} {e : Event}

theorem sees?_eq_some_iff {idleFor : Option Duration} :
    e.sees? loop = some idleFor ↔ ∃ pass s, e = .passBegan pass s loop idleFor := by
  cases e with
  | passBegan pass s loop' idleFor' =>
    by_cases hloop : loop' = loop
    · simp [sees?, hloop]
    · simp [sees?, hloop]
  | _ => simp [sees?]

theorem sees?_unique {loop' : LoopId} {idleFor idleFor' : Option Duration}
    (h : e.sees? loop = some idleFor) (h' : e.sees? loop' = some idleFor') :
    loop = loop' ∧ idleFor = idleFor' := by
  obtain ⟨pass, s, rfl⟩ := sees?_eq_some_iff.mp h
  obtain ⟨pass', s', heq⟩ := sees?_eq_some_iff.mp h'
  cases heq
  exact ⟨rfl, rfl⟩

theorem recalls_of_sees {idleFor : Option Duration} (h : e.sees? loop = some idleFor)
    (before : Bool) : e.recalls loop before = idleFor.isSome := by
  obtain ⟨pass, s, rfl⟩ := sees?_eq_some_iff.mp h
  exact if_pos rfl

theorem recalls_of_renews (h : e.Renews loop) (before : Bool) :
    e.recalls loop before = false := by
  cases e with
  | pollBegan s => exact if_pos (Option.some.inj h).symm
  | _ => cases h

theorem recalls_of_unseen (hsees : e.sees? loop = none) (hrenews : ¬ e.Renews loop)
    (before : Bool) : e.recalls loop before = before := by
  cases e with
  | passBegan pass s loop' idleFor =>
    have hloop : loop' ≠ loop := by
      rintro rfl
      simp [sees?] at hsees
    exact if_neg hloop
  | pollBegan s => exact if_neg fun hloop => hrenews (congrArg some hloop.symm)
  | _ => rfl

end Event

/-- Whether a loop that began without memory remembers the host as idle. -/
def recalls (loop : LoopId) : List Moment → Bool
  | [] => false
  | m :: earlier => m.event.recalls loop (recalls loop earlier)

section Recalls

variable {loop : LoopId} {ms old : List Moment}

/-- What a loop does not see does not change its memory. -/
theorem recalls_append_of_unseen
    (h : ∀ m ∈ ms, m.event.sees? loop = none ∧ ¬ m.event.Renews loop) :
    recalls loop (ms ++ old) = recalls loop old := by
  induction ms with
  | nil => rfl
  | cons m rest ih =>
    obtain ⟨hsees, hrenews⟩ := h m List.mem_cons_self
    rw [List.cons_append, recalls, Event.recalls_of_unseen hsees hrenews]
    exact ih fun m hm => h m (List.mem_cons_of_mem _ hm)

/-- A loop whose passes all see the host idle remembers it so, once there was one. -/
theorem recalls_append_of_idle
    (hidle : ∀ m ∈ ms, ∀ idleFor ∈ m.event.sees? loop, idleFor.isSome = true)
    (hrenews : ∀ m ∈ ms, ¬ m.event.Renews loop)
    (hsome : recalls loop old = true ∨ ∃ m ∈ ms, m.event.sees? loop ≠ none) :
    recalls loop (ms ++ old) = true := by
  induction ms with
  | nil => simpa using hsome
  | cons m rest ih =>
    rw [List.cons_append, recalls]
    cases hsees : m.event.sees? loop with
    | some idleFor =>
      rw [Event.recalls_of_sees hsees]
      exact hidle m List.mem_cons_self idleFor hsees
    | none =>
      rw [Event.recalls_of_unseen hsees (hrenews m List.mem_cons_self)]
      refine ih (fun m hm => hidle m (List.mem_cons_of_mem _ hm))
        (fun m hm => hrenews m (List.mem_cons_of_mem _ hm)) (hsome.imp_right ?_)
      rintro ⟨m', hm', hsees'⟩
      rcases List.mem_cons.mp hm' with rfl | hm'
      · exact absurd hsees hsees'
      · exact ⟨m', hm', hsees'⟩

/-- A loop remembers the host as idle if its last pass saw it so. -/
theorem recalls_eq_true_iff : recalls loop ms = true ↔ ∃ later m earlier idleFor,
    ms = later ++ m :: earlier ∧ m.event.sees? loop = some (some idleFor) ∧
      ∀ m' ∈ later, m'.event.sees? loop = none ∧ ¬ m'.event.Renews loop := by
  constructor
  · intro h
    induction ms with
    | nil => cases h
    | cons m rest ih =>
      rw [recalls] at h
      cases hsees : m.event.sees? loop with
      | some idleFor =>
        rw [Event.recalls_of_sees hsees] at h
        obtain ⟨d, rfl⟩ := Option.isSome_iff_exists.mp h
        exact ⟨[], m, rest, d, rfl, hsees, fun _ hm => absurd hm List.not_mem_nil⟩
      | none =>
        have hrenews : ¬ m.event.Renews loop := fun hrenews => by
          rw [Event.recalls_of_renews hrenews] at h
          cases h
        rw [Event.recalls_of_unseen hsees hrenews] at h
        obtain ⟨later, m', earlier, idleFor, rfl, hsees', hlater⟩ := ih h
        refine ⟨m :: later, m', earlier, idleFor, rfl, hsees', fun m'' hm => ?_⟩
        rcases List.mem_cons.mp hm with rfl | hm
        · exact ⟨hsees, hrenews⟩
        · exact hlater m'' hm
  · rintro ⟨later, m, earlier, idleFor, rfl, hsees, hlater⟩
    rw [recalls_append_of_unseen hlater, recalls, Event.recalls_of_sees hsees]
    rfl

end Recalls

namespace World

variable {w w' w₁ w₂ : World} {e : Event} {ms : List Moment} {loop : LoopId}

/-- What an event does to the host and to the memory of loops. Settings of schedulers stay. -/
structure Framed (w : World) (e : Event) (w' : World) : Prop where
  host : w'.host = e.hostAfter w.host
  loops : ∀ loop, w'.loops.get loop = e.recalls loop (w.loops.get loop)
  config : ∀ s, (w'.scheduler s).config = (w.scheduler s).config

theorem SameFrame.framed (h : SameFrame w w') (hhost : e.hostAfter w.host = w.host)
    (hloops : ∀ loop before, e.recalls loop before = before) : Framed w e w' :=
  ⟨h.host.trans hhost.symm, fun loop => by rw [h.loops, hloops], h.config⟩

theorem Step.framed (h : w.Step e w') : Framed w e w' := by
  cases h with
  | hostChanged change => exact ⟨rfl, fun _ => rfl, fun _ => rfl⟩
  | passBegan pass s loop => exact ⟨rfl, fun loop' => Table.get_set .., fun _ => rfl⟩
  | pollBegan s stop =>
    refine ⟨rfl, fun loop' => ?_, fun _ => rfl⟩
    refine (Table.get_set ..).trans ?_
    simp only [Event.recalls, eq_comm]
  | adjusted hadjust =>
    obtain ⟨-, r, -, rfl⟩ := adjust_eq_ok hadjust
    exact (SameFrame.setTimer w _ r).framed rfl fun _ _ => rfl
  | armed s triggered ht hmade => exact (SameFrame.enqueue ..).framed rfl fun _ _ => rfl
  | @scheduled s r trigger triggered hr =>
    have hcreated : SameFrame w (w.create r).2 := ⟨rfl, rfl, fun _ => rfl⟩
    exact (hcreated.trans (.enqueue ..)).framed rfl fun _ _ => rfl
  | cancelled s hts => exact (SameFrame.cancelAll ..).framed rfl fun _ _ => rfl
  | idleStarted s => exact (SameFrame.rouse ..).framed rfl fun _ _ => rfl
  | contextChanged s context =>
    have hsame : SameFrame w (w.setScheduler s { w.scheduler s with context }) := .setScheduler rfl
    exact hsame.framed rfl fun _ _ => rfl
  | started htake =>
    have hsame : SameFrame w _ := SameFrame.take htake
    exact ⟨hsame.host, fun loop => by rw [← hsame.loops]; rfl, hsame.config⟩
  | settled s t start => exact (SameFrame.settle ..).framed rfl fun _ _ => rfl
  | emptied htake =>
    obtain ⟨kind, -, -, rfl⟩ := take_eq_idle htake
    exact (SameFrame.withdraw ..).framed rfl fun _ _ => rfl
  | _ => exact ⟨rfl, fun _ => rfl, fun _ => rfl⟩

/-- What a loop sees is how the host is. -/
theorem Step.sees (h : w.Step e w') {idleFor : Option Duration}
    (hsees : e.sees? loop = some idleFor) : idleFor = w.host.idleFor? := by
  obtain ⟨pass, s, rfl⟩ := Event.sees?_eq_some_iff.mp hsees
  cases h
  rfl

theorem Path.config_eq (h : w₁.Path ms w₂) (s : SchedulerId) :
    (w₂.scheduler s).config = (w₁.scheduler s).config := by
  induction h with
  | nil => rfl
  | cons _ hstep ih => exact (hstep.framed.config s).trans ih

/-- What a loop remembers can be read off the journal. -/
theorem Path.loops_eq (h : w₁.Path ms w₂) (hnew : w₁.loops.get loop = false) :
    w₂.loops.get loop = recalls loop ms := by
  induction h with
  | nil => exact hnew
  | cons _ hstep ih => rw [hstep.framed.loops, ih, recalls]

/-- A pass of the loop would make idle timers live. -/
def wakes (w : World) (loop : LoopId) : Bool := !w.loops.get loop && w.host.idleFor?.isSome

/-- The world after that. -/
def woken (w : World) (s : SchedulerId) (loop : LoopId) : World :=
  if w.wakes loop then w.startIdle s else w

/-- The world in which a pass looks at the queues. -/
def observed (w : World) (s : SchedulerId) (loop : LoopId) : World :=
  { w.woken s loop with loops := w.loops.set loop w.host.idleFor?.isSome }

/-- The moments before a pass begins. -/
def waking (w : World) (s : SchedulerId) (loop : LoopId) : List Moment :=
  if w.wakes loop then [⟨.idleStarted s, w.startIdle s⟩] else []

theorem pass?_of_mem_waking {s : SchedulerId} {loop : LoopId} {m : Moment}
    (h : m ∈ w.waking s loop) : m.event.pass? = none := by
  unfold waking at h
  split at h
  · obtain rfl := List.mem_singleton.mp h
    rfl
  · cases h

theorem unseen_of_mem_waking {s : SchedulerId} {loop' : LoopId} {m : Moment}
    (h : m ∈ w.waking s loop') : m.event.sees? loop = none ∧ ¬ m.event.Renews loop := by
  unfold waking at h
  split at h
  · obtain rfl := List.mem_singleton.mp h
    exact ⟨rfl, fun hrenews => nomatch hrenews⟩
  · cases h

theorem woken_eq_rouse (w : World) (s : SchedulerId) (loop : LoopId) :
    w.woken s loop = w.rouse (if w.wakes loop then (w.scheduler s).idle.items else []) := by
  unfold woken
  split <;> rfl

theorem SameFrame.woken (w : World) (s : SchedulerId) (loop : LoopId) :
    SameFrame w (w.woken s loop) := by
  rw [woken_eq_rouse]
  exact .rouse w _

theorem waiting_observed (w : World) (s : SchedulerId) (loop : LoopId) (s' : SchedulerId)
    (kind : QueueKind) : (w.observed s loop).waiting s' kind = w.waiting s' kind := by
  change (w.woken s loop).waiting s' kind = _
  rw [woken_eq_rouse, waiting_rouse]

theorem Sound.observed (h : w.Sound) (s : SchedulerId) (loop : LoopId) :
    (w.observed s loop).Sound := by
  have hwoken : (w.woken s loop).Sound := by
    rw [woken_eq_rouse]
    exact h.rouse _
  exact hwoken.congr rfl rfl (fun _ => rfl) (fun _ => rfl)

/-- What a pass does before it looks at the queues may make a timer live, no more. -/
theorem timer_observed (w : World) (s : SchedulerId) (loop : LoopId) (t : TimerId) :
    (w.observed s loop).timer t = w.timer t ∨
      t ∈ (w.scheduler s).idle.items ∧
        (w.observed s loop).timer t = { w.timer t with triggered := false } := by
  change (w.woken s loop).timer t = _ ∨ _ ∧ (w.woken s loop).timer t = _
  rw [woken_eq_rouse, timer_rouse]
  by_cases hwakes : w.wakes loop = true
  · rw [if_pos hwakes]
    by_cases ht : t ∈ (w.scheduler s).idle.items
    · exact Or.inr ⟨ht, if_pos ht⟩
    · exact Or.inl (if_neg ht)
  · rw [if_neg hwakes]
    exact Or.inl (if_neg List.not_mem_nil)

/-- A loop that has not seen the host idle makes all timers of the idle queue live. -/
theorem triggered_observed {s : SchedulerId} {loop : LoopId} {t : TimerId}
    (hwakes : w.wakes loop = true) (ht : t ∈ ((w.observed s loop).scheduler s).idle.items) :
    ((w.observed s loop).timer t).triggered = false := by
  obtain ⟨trigger, hmem⟩ := mem_idle_items.mp ht
  rw [waiting_observed] at hmem
  change ((w.woken s loop).timer t).triggered = false
  rw [woken_eq_rouse, if_pos hwakes, timer_rouse, if_pos (mem_idle_items.mpr ⟨trigger, hmem⟩)]

end World

/-- The run in which a pass looks at the queues. -/
def Run.observing (r : Run) (s : SchedulerId) (loop : LoopId) : Run where
  world := r.world.observed s loop
  journal := ⟨.passBegan r.passes s loop r.world.host.idleFor?, r.world.observed s loop⟩ ::
    (r.world.waking s loop ++ r.journal)
  passes := r.passes + 1

theorem observeIdle_run (pass : Nat) (s : SchedulerId) (loop : LoopId) (r : Run) :
    observeIdle pass s loop r = .ok r.world.host.idleFor? { r with
      world := r.world.observed s loop
      journal := ⟨.passBegan pass s loop r.world.host.idleFor?, r.world.observed s loop⟩ ::
        (r.world.waking s loop ++ r.journal) } := by
  have hsame := World.SameFrame.woken r.world s loop
  unfold World.observed World.waking
  rw [← hsame.host, ← hsame.loops]
  unfold observeIdle wakeIdle World.woken
  by_cases hwakes : r.world.wakes loop = true
  · rw [Act.world_bind, if_pos hwakes, if_pos hwakes]
    unfold World.wakes at hwakes
    rw [if_pos hwakes]
    rfl
  · rw [Act.world_bind, if_neg hwakes, if_neg hwakes]
    unfold World.wakes at hwakes
    rw [if_neg hwakes]
    rfl

/-- What a pass does after it began. -/
theorem drain_eq (call : Caller) (s : SchedulerId) (loop : LoopId) (r : Run) :
    drain call s loop r =
      (do
        let p := Snapshot.ofWorld (← world) s r.world.host.idleFor?
        let report ← sweep call r.passes s p.size p 0
        record (.passEnded r.passes s loop report) (← world)
        return report : Act PassReport) (r.observing s loop) := by
  have hobserve := observeIdle_run r.passes s loop { r with passes := r.passes + 1 }
  unfold drain
  change (observeIdle r.passes s loop >>= _) _ = _
  simp only [bind, EStateM.bind, hobserve]
  rfl

end Timekeeping
