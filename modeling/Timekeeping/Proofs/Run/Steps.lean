import Timekeeping.Run.Journal
import Timekeeping.Proofs.State.Removals

/-!
A run as a transition system. `Step` says what each event of a journal may do to
the world, and `Path` strings steps together, the latest first as in a journal.
What one step keeps is shown here once and holds at every moment of a path.
-/
namespace Timekeeping

namespace Event

/-- The pass to which an event belongs. -/
def pass? : Event → Option Nat
  | passBegan pass _ _ _ => some pass
  | passedOver pass _ _ => some pass
  | picked pass _ _ _ _ => some pass
  | passEnded pass _ _ _ => some pass
  | _ => none

/-- The scheduler to which an event belongs. -/
def scheduler? : Event → Option SchedulerId
  | armed s _ _ _ => some s
  | cancelled s _ => some s
  | idleStarted s => some s
  | contextChanged s => some s
  | started s _ _ _ _ _ => some s
  | settled s _ _ => some s
  | emptied s _ => some s
  | passBegan _ s _ _ => some s
  | passedOver _ s _ => some s
  | picked _ s _ _ _ => some s
  | passEnded _ s _ _ => some s
  | pollBegan s => some s
  | pollEnded s => some s
  | _ => none

/-- A firing is over. -/
def settles : Event → Bool
  | settled _ _ _ => true
  | _ => false

/-- A pass over a scheduler begins. -/
def Begins : Event → Nat → SchedulerId → Prop
  | passBegan pass s _ _, pass', s' => pass = pass' ∧ s = s'
  | _, _, _ => False

/-- A timer is queued on request. -/
def Arms : Event → TimerId → Prop
  | armed _ u _ _, t => u = t
  | _, _ => False

/-- A timer's callback starts. -/
def Starts : Event → TimerId → Prop
  | started _ u _ _ _ _, t => u = t
  | _, _ => False

/-- The timers that are taken out of their queues because they are cancelled. -/
def withdrawn : Event → List TimerId
  | cancelled _ ts => ts
  | _ => []

/-- A timer is taken out of its queue because it is cancelled. -/
def Cancels (e : Event) (t : TimerId) : Prop := t ∈ e.withdrawn

instance (e : Event) (pass : Nat) (s : SchedulerId) : Decidable (e.Begins pass s) := by
  cases e <;> first | exact inferInstanceAs (Decidable (_ ∧ _)) | exact isFalse id

instance (e : Event) (t : TimerId) : Decidable (e.Arms t) := by
  cases e <;> first | exact inferInstanceAs (Decidable ((_ : TimerId) = t)) | exact isFalse id

instance (e : Event) (t : TimerId) : Decidable (e.Starts t) := by
  cases e <;> first | exact inferInstanceAs (Decidable ((_ : TimerId) = t)) | exact isFalse id

instance (e : Event) (t : TimerId) : Decidable (e.Cancels t) :=
  inferInstanceAs (Decidable (t ∈ e.withdrawn))

/-- All timers in the idle queue of a scheduler are made live. -/
def Rouses : Event → SchedulerId → Prop
  | idleStarted s, s' => s = s'
  | _, _ => False

instance (e : Event) (s : SchedulerId) : Decidable (e.Rouses s) := by
  cases e with
  | idleStarted s' => exact inferInstanceAs (Decidable ((_ : SchedulerId) = s))
  | _ => exact isFalse id

/-- A timer is taken out of its queue, to be fired or because it is cancelled. -/
def Removes : Event → TimerId → Prop
  | cancelled _ us, t => t ∈ us
  | started _ u _ _ _ _, t => u = t
  | emptied _ u, t => u = t
  | _, _ => False

instance (e : Event) (t : TimerId) : Decidable (e.Removes t) := by
  cases e <;> first
    | exact inferInstanceAs (Decidable ((_ : TimerId) = t))
    | exact inferInstanceAs (Decidable (t ∈ (_ : List TimerId)))
    | exact isFalse id

/-- The event, which left the given world, may have changed the timer's row or its place. -/
def Touches : Event → World → TimerId → Prop
  | created u, _, t => u = t
  | adjusted u, _, t => u = t
  | armed _ u _ _, _, t => u = t
  | cancelled _ us, _, t => t ∈ us
  | idleStarted s, w, t => t ∈ (w.scheduler s).idle.items
  | started _ u _ _ _ _, _, t => u = t
  | settled _ u _, _, t => u = t
  | emptied _ u, _, t => u = t
  | _, _, _ => False

instance (e : Event) (w : World) (t : TimerId) : Decidable (e.Touches w t) := by
  cases e <;> first
    | exact inferInstanceAs (Decidable ((_ : TimerId) = t))
    | exact inferInstanceAs (Decidable (t ∈ (_ : List TimerId)))
    | exact isFalse id

/-- The timer is armed, cancelled, fired or adjusted, or the timers of an idle queue are made live. -/
def Disturbs : Event → TimerId → Prop
  | armed _ u _ _, t => u = t
  | cancelled _ us, t => t ∈ us
  | started _ u _ _ _ _, t => u = t
  | adjusted u, t => u = t
  | idleStarted _, _ => True
  | _, _ => False

instance (e : Event) (t : TimerId) : Decidable (e.Disturbs t) := by
  cases e <;> first
    | exact inferInstanceAs (Decidable ((_ : TimerId) = t))
    | exact inferInstanceAs (Decidable (t ∈ (_ : List TimerId)))
    | exact isTrue trivial
    | exact isFalse id

variable {e : Event} {w : World} {t : TimerId}

/-- Passes do not take timers out of their queues, firings do. -/
theorem Removes.pass? (h : e.Removes t) : e.pass? = none := by
  cases e with
  | cancelled s us => rfl
  | started s u kind callback call args => rfl
  | emptied s u => rfl
  | _ => exact h.elim

theorem Starts.removes (h : e.Starts t) : e.Removes t := by
  cases e with
  | started s u kind callback call args => exact h
  | _ => exact h.elim

theorem Removes.touches (h : e.Removes t) : e.Touches w t := by
  cases e with
  | cancelled s us => exact h
  | started s u kind callback call args => exact h
  | emptied s u => exact h
  | _ => exact h.elim

theorem Arms.touches (h : e.Arms t) : e.Touches w t := by
  cases e with
  | armed s u kind triggered => exact h
  | _ => exact h.elim

theorem Starts.touches (h : e.Starts t) : e.Touches w t := by
  cases e with
  | started s u kind callback call args => exact h
  | _ => exact h.elim

theorem Cancels.touches (h : e.Cancels t) : e.Touches w t := by
  cases e with
  | cancelled s ts => exact h
  | _ => exact absurd h List.not_mem_nil

theorem Touches.pass? (h : e.Touches w t) : e.pass? = none := by
  cases e with
  | passBegan pass s loop idleFor => exact h.elim
  | passedOver pass s entries => exact h.elim
  | picked pass s t trigger wait => exact h.elim
  | passEnded pass s loop report => exact h.elim
  | _ => rfl

end Event

namespace World

/-- What an event may do to the world. -/
inductive Step (w : World) : Event → World → Prop
  | created (r : Timer) (hr : r.New) : w.Step (.created ⟨w.created⟩) (w.create r).2
  | named (name : String) (t : TimerId) :
      w.Step (.named name t) { w with names := w.names.set name (some t) }
  | adjusted {t : TimerId} {setting : Timer.Setting} {w' : World}
      (h : w.adjust t setting = .ok w') (hmade : w.made t = true) : w.Step (.adjusted t) w'
  | armed (s : SchedulerId) {t : TimerId} {trigger : Trigger} (triggered : Bool)
      (ht : (w.timer t).Armable trigger) (hmade : w.made t = true) :
      w.Step (.armed s t trigger.kind triggered) (w.enqueue s t trigger triggered)
  | scheduled (s : SchedulerId) {r : Timer} {trigger : Trigger} (triggered : Bool)
      (hr : r.Armable trigger) (hnew : r.New) :
      w.Step (.armed s ⟨w.created⟩ trigger.kind triggered)
        ((w.create r).2.enqueue s ⟨w.created⟩ trigger triggered)
  | cancelled (s : SchedulerId) {ts : List TimerId}
      (hts : ∀ t ∈ ts, ∃ kind trigger, (t, trigger) ∈ w.waiting s kind) :
      w.Step (.cancelled s ts) (w.cancelAll s ts)
  | idleStarted (s : SchedulerId) : w.Step (.idleStarted s) (w.startIdle s)
  | contextChanged (s : SchedulerId) (context : Context) :
      w.Step (.contextChanged s) (w.setScheduler s { w.scheduler s with context })
  | hostChanged (change : Host.Change) :
      w.Step (.hostChanged change) { w with host := w.host.apply change }
  | stopSet (value : Bool) : w.Step (.stopSet value) { w with stop := value }
  | started {s : SchedulerId} {t : TimerId} {start : Started} {w' : World}
      (h : w.take s t = .started start w') :
      w.Step (.started s t start.kind start.callback (w'.calls.get start.callback.key) start.args)
        { w' with calls :=
            w'.calls.set start.callback.key (w'.calls.get start.callback.key + 1) }
  | settled (s : SchedulerId) (t : TimerId) (start : Started) :
      w.Step (.settled s t start.again) (w.settle s t start)
  | emptied {s : SchedulerId} {t : TimerId} {w' : World} (h : w.take s t = .idle w') :
      w.Step (.emptied s t) w'
  | stepped (key number : Nat) (label : String) (reply : Reply) :
      w.Step (.stepped key number label reply) w
  | passBegan (pass : Nat) (s : SchedulerId) (loop : LoopId) :
      w.Step (.passBegan pass s loop w.host.idleFor?)
        { w with loops := w.loops.set loop w.host.idleFor?.isSome }
  | passedOver (pass : Nat) (s : SchedulerId) (entries : List (TimerId × Trigger)) :
      w.Step (.passedOver pass s entries) w
  | picked (pass : Nat) (s : SchedulerId) (t : TimerId) (trigger : Trigger) (wait : Duration) :
      w.Step (.picked pass s t trigger wait) w
  | passEnded (pass : Nat) (s : SchedulerId) (loop : LoopId) (report : PassReport) :
      w.Step (.passEnded pass s loop report) w
  | pollBegan (s : SchedulerId) (stop : Bool) :
      w.Step (.pollBegan s)
        { w with stop, polling := true, loops := w.loops.set .poller false }
  | pollEnded (s : SchedulerId) : w.Step (.pollEnded s) { w with polling := false }

variable {w w' : World} {e : Event} {t : TimerId}

/-- Cancelling one timer is cancelling a list of one. -/
theorem Step.of_cancel? {s : SchedulerId} (h : w.cancel? s t = some w') :
    w.Step (.cancelled s [t]) w' := by
  obtain ⟨kind, hkind, heq⟩ := Option.map_eq_some_iff.mp h
  obtain ⟨-, trigger, hmem⟩ := (queueOf?_eq_some_iff w s t kind).mp hkind
  have hall : w.cancelAll s [t] = w' := by
    change (w.cancel? s t).getD w = w'
    rw [h]
    rfl
  rw [← hall]
  refine .cancelled s fun u hu => ?_
  obtain rfl := List.mem_singleton.mp hu
  exact ⟨kind, trigger, hmem⟩

theorem Sound.queued_new (h : w.Sound) : (w.timer ⟨w.created⟩).queued = none := by
  by_contra hne
  have hmade := h.made hne
  simp [World.made] at hmade

/-- A step keeps queues and rows in agreement. -/
theorem Step.sound (h : w.Step e w') (hw : w.Sound) : w'.Sound := by
  cases h with
  | created r hr => exact hw.create hr.queued
  | adjusted hadjust =>
    obtain ⟨hnone, r, hr, rfl⟩ := adjust_eq_ok hadjust
    exact hw.setTimer (hr.trans hnone.symm) (fun hne => absurd hr hne)
  | armed s triggered ht hmade => exact hw.enqueue_of_armable ht hmade
  | @scheduled s r trigger triggered hr =>
    refine (hw.create hr.queued).enqueue_of_armable ?_ ?_
    · rw [timer_create, if_pos rfl]
      exact hr
    · simp [World.made, create]
  | cancelled s hts => exact hw.cancelAll s _
  | idleStarted s => exact hw.rouse _
  | contextChanged s context => exact hw.setScheduler rfl rfl
  | started htake =>
    obtain ⟨kind, S, hkind, -, ha, hi, rfl⟩ := take_eq_started htake
    exact ((hw.withdraw hkind).setScheduler ha hi).congr rfl rfl (fun _ => rfl) (fun _ => rfl)
  | settled s t start => exact hw.settle s t start
  | emptied htake =>
    obtain ⟨kind, hkind, -, rfl⟩ := take_eq_idle htake
    exact hw.withdraw hkind
  | _ => exact hw.congr rfl rfl (fun _ => rfl) (fun _ => rfl)

/-- A step leaves all timers alone that its event does not touch. -/
theorem Step.unchanged (h : w.Step e w') (ht : ¬ e.Touches w' t) : Unchanged w w' t := by
  cases h with
  | created r hr => exact .create ht r
  | adjusted hadjust =>
    obtain ⟨-, r, -, rfl⟩ := adjust_eq_ok hadjust
    exact .setTimer ht r
  | armed s triggered hrow hmade => exact .enqueue ht triggered
  | @scheduled s r trigger triggered hr =>
    exact (Unchanged.create ht r).trans (.enqueue ht triggered)
  | cancelled s hts => exact .cancelAll ht
  | idleStarted s =>
    have hitem : t ∉ (w.scheduler s).idle.items := by
      intro hitem
      obtain ⟨trigger, hmem⟩ := mem_idle_items.mp hitem
      exact ht (mem_idle_items.mpr ⟨trigger, by rw [startIdle_eq, waiting_rouse]; exact hmem⟩)
    refine ⟨?_, fun s' kind trigger => ?_⟩
    · rw [startIdle_eq, timer_rouse, if_neg hitem]
    · rw [startIdle_eq, waiting_rouse]
  | contextChanged s context => exact .setScheduler rfl rfl
  | started htake =>
    obtain ⟨kind, S, -, -, ha, hi, rfl⟩ := take_eq_started htake
    have hfired := (Unchanged.withdraw ht).trans (.setScheduler ha hi)
    exact hfired.trans (.congr rfl (fun _ => rfl) (fun _ => rfl))
  | settled s u start =>
    refine ⟨timer_settle_of_ne ht start, fun s' kind trigger => ?_⟩
    rw [waiting_settle]
  | emptied htake =>
    obtain ⟨kind, -, -, rfl⟩ := take_eq_idle htake
    exact .withdraw ht
  | _ => exact .congr rfl (fun _ => rfl) (fun _ => rfl)

/-- What is cancelled has left the queues. -/
theorem Step.cancels (h : w.Step e w') (hw : w.Sound) (ht : e.Cancels t) :
    (w'.timer t).queued = none := by
  cases h with
  | cancelled s hts =>
    obtain ⟨kind, trigger, hmem⟩ := hts t ht
    exact queued_cancelAll hw ht hmem
  | _ => exact absurd ht List.not_mem_nil

/-- A timer that is in no queue does not start and stays out until it is armed. -/
theorem Step.stays_out (h : w.Step e w') (hw : w.Sound) (hout : (w.timer t).queued = none)
    (harm : ¬ e.Arms t) : (w'.timer t).queued = none ∧ ¬ e.Starts t := by
  by_cases htouch : e.Touches w' t
  · cases h with
    | created r hr =>
      obtain rfl : _ = t := htouch
      rw [timer_create, if_pos rfl]
      exact ⟨hr.queued, id⟩
    | adjusted hadjust =>
      obtain rfl : _ = t := htouch
      obtain ⟨-, r, hr, rfl⟩ := adjust_eq_ok hadjust
      rw [timer_setTimer, if_pos rfl]
      exact ⟨hr, id⟩
    | armed s triggered hrow hmade => exact absurd htouch harm
    | scheduled s triggered hr => exact absurd htouch harm
    | cancelled s hts => exact ⟨queued_cancelAll_of_none hout, id⟩
    | idleStarted s =>
      obtain ⟨trigger, hmem⟩ := mem_idle_items.mp htouch
      rw [startIdle_eq, waiting_rouse] at hmem
      exact absurd hmem (hw.not_mem_waiting hout)
    | started htake =>
      obtain rfl : _ = t := htouch
      obtain ⟨kind, S, hkind, -⟩ := take_eq_started htake
      obtain ⟨hqueued, -⟩ := (queueOf?_eq_some_iff _ _ _ _).mp hkind
      rw [hout] at hqueued
      cases hqueued
    | settled s u start =>
      obtain rfl : _ = t := htouch
      refine ⟨?_, id⟩
      obtain heq | heq := timer_settle w s u start
      · rw [heq]
        exact hout
      · rw [heq]
        exact hout
    | emptied htake =>
      obtain rfl : _ = t := htouch
      obtain ⟨kind, hkind, -⟩ := take_eq_idle htake
      obtain ⟨hqueued, -⟩ := (queueOf?_eq_some_iff _ _ _ _).mp hkind
      rw [hout] at hqueued
      cases hqueued
    | _ => exact htouch.elim
  · refine ⟨by rw [(h.unchanged htouch).timer]; exact hout, fun hstart => htouch ?_⟩
    cases h with
    | started htake => exact hstart
    | _ => exact hstart.elim

/-- What is armed is put in the queue for its trigger, whether it was there before or was made for it. -/
theorem Step.of_armed {s : SchedulerId} {kind : QueueKind} {triggered : Bool}
    (h : w.Step (.armed s t kind triggered) w') :
    ∃ (w₀ : World) (trigger : Trigger), trigger.kind = kind ∧
      w' = w₀.enqueue s t trigger triggered := by
  cases h with
  | armed s triggered hrow hmade => exact ⟨w, _, rfl, rfl⟩
  | @scheduled s r trigger triggered hr => exact ⟨(w.create r).2, trigger, rfl, rfl⟩

/-- A step that touches a timer while it is queued takes it out of its queue, or begins an idle period
of the scheduler that it waits in, or settles a firing of it. -/
theorem Step.touches_queued (h : w.Step e w') (hw : w.Sound)
    (hqueued : (w.timer t).queued ≠ none) (htouch : e.Touches w' t) :
    e.Removes t ∨
      (∃ s trigger, e = .idleStarted s ∧ w' = w.startIdle s ∧ (t, trigger) ∈ w.waiting s .idle) ∨
      ∃ s start, e = .settled s t start.again ∧ w' = w.settle s t start := by
  cases h with
  | created r hr =>
    obtain rfl : _ = t := htouch
    exact absurd hw.queued_new hqueued
  | adjusted hadjust =>
    obtain rfl : _ = t := htouch
    exact absurd (adjust_eq_ok hadjust).1 hqueued
  | armed s triggered hrow hmade =>
    obtain rfl : _ = t := htouch
    exact absurd hrow.queued hqueued
  | scheduled s triggered hr =>
    obtain rfl : _ = t := htouch
    exact absurd hw.queued_new hqueued
  | cancelled s hts => exact Or.inl htouch
  | idleStarted s =>
    obtain ⟨trigger, hmem⟩ := mem_idle_items.mp htouch
    rw [startIdle_eq, waiting_rouse] at hmem
    exact Or.inr (Or.inl ⟨s, trigger, rfl, rfl, hmem⟩)
  | started htake => exact Or.inl htouch
  | settled s u start =>
    obtain rfl : u = t := htouch
    exact Or.inr (Or.inr ⟨s, start, rfl, rfl⟩)
  | emptied htake => exact Or.inl htouch
  | _ => exact htouch.elim

/-- A live timer that waits in a scheduler stays there live until it is removed. -/
theorem Step.stays_live {s : SchedulerId} {kind : QueueKind} {trigger : Trigger} (h : w.Step e w')
    (hw : w.Sound) (hlive : (w.timer t).triggered = false)
    (hmem : (t, trigger) ∈ w.waiting s kind) (hremoves : ¬ e.Removes t) :
    (w'.timer t).triggered = false ∧ (t, trigger) ∈ w'.waiting s kind := by
  have hqueued : (w.timer t).queued ≠ none := by
    rw [(hw.entry hmem).1]
    exact Option.some_ne_none kind
  by_cases htouch : e.Touches w' t
  · rcases h.touches_queued hw hqueued htouch with
      hremove | ⟨s', -, -, rfl, -⟩ | ⟨s', start, -, rfl⟩
    · exact absurd hremove hremoves
    · rw [startIdle_eq, waiting_rouse, timer_rouse]
      refine ⟨?_, hmem⟩
      split
      · rfl
      · exact hlive
    · rw [waiting_settle]
      refine ⟨?_, hmem⟩
      obtain heq | heq := timer_settle w s' t start
      · rw [heq]
        exact hlive
      · rw [heq]
  · have hsame := h.unchanged htouch
    rw [hsame.timer]
    exact ⟨hlive, (hsame.waiting s kind trigger).mpr hmem⟩

/-- The moments of a journal lead from one world to another. -/
inductive Path (w : World) : List Moment → World → Prop
  | nil : w.Path [] w
  | cons {ms : List Moment} {w₁ w₂ : World} {e : Event} :
      w.Path ms w₁ → w₁.Step e w₂ → w.Path (⟨e, w₂⟩ :: ms) w₂

namespace Path

variable {w₁ w₂ w₃ : World} {ms ms' : List Moment}

theorem append (h : w₁.Path ms w₂) (h' : w₂.Path ms' w₃) : w₁.Path (ms' ++ ms) w₃ := by
  induction h' with
  | nil => exact h
  | cons _ hstep ih => exact .cons ih hstep

theorem split (h : w₁.Path (ms' ++ ms) w₃) : ∃ w₂, w₁.Path ms w₂ ∧ w₂.Path ms' w₃ := by
  induction ms' generalizing w₃ with
  | nil => exact ⟨w₃, h, .nil⟩
  | cons m rest ih =>
    cases h with
    | cons hrest hstep =>
      obtain ⟨w₂, hfirst, hsecond⟩ := ih hrest
      exact ⟨w₂, hfirst, .cons hsecond hstep⟩

/-- What every step to certain moments keeps holds at the end and at every moment of a path that is
made of such moments. -/
theorem invariant_of {I : World → Prop} {P : Moment → Prop}
    (hstep : ∀ {w e w'}, Step w e w' → P ⟨e, w'⟩ → I w → I w') (h : w₁.Path ms w₂)
    (hP : ∀ m ∈ ms, P m) (hI : I w₁) : I w₂ ∧ ∀ m ∈ ms, I m.world := by
  induction h with
  | nil => exact ⟨hI, fun m hm => absurd hm List.not_mem_nil⟩
  | cons _ hlast ih =>
    obtain ⟨hI', hall⟩ := ih fun m hm => hP m (List.mem_cons_of_mem _ hm)
    have hnext := hstep hlast (hP _ List.mem_cons_self) hI'
    refine ⟨hnext, fun m hm => ?_⟩
    rcases List.mem_cons.mp hm with rfl | hm
    · exact hnext
    · exact hall m hm

/-- What every step keeps holds at the end and at every moment of a path. -/
theorem invariant {I : World → Prop} (hstep : ∀ {w e w'}, Step w e w' → I w → I w')
    (h : w₁.Path ms w₂) (hI : I w₁) : I w₂ ∧ ∀ m ∈ ms, I m.world :=
  h.invariant_of (P := fun _ => True) (fun hlast _ => hstep hlast) (fun _ _ => trivial) hI

theorem sound (h : w₁.Path ms w₂) (hw : w₁.Sound) : w₂.Sound ∧ ∀ m ∈ ms, m.world.Sound :=
  h.invariant Step.sound hw

/-- Along a path a timer that is in no queue does not start and stays out until it is armed. -/
theorem stays_out {t : TimerId} (h : w₁.Path ms w₂) (hw : w₁.Sound)
    (hout : (w₁.timer t).queued = none) (harm : ∀ m ∈ ms, ¬ m.event.Arms t) :
    (w₂.timer t).queued = none ∧
      ∀ m ∈ ms, (m.world.timer t).queued = none ∧ ¬ m.event.Starts t := by
  induction h with
  | nil => exact ⟨hout, fun m hm => absurd hm List.not_mem_nil⟩
  | cons hrest hstep ih =>
    obtain ⟨hout', hall⟩ := ih fun m hm => harm m (List.mem_cons_of_mem _ hm)
    have hnext := hstep.stays_out (hrest.sound hw).1 hout' (harm _ List.mem_cons_self)
    refine ⟨hnext.1, fun m hm => ?_⟩
    rcases List.mem_cons.mp hm with rfl | hm
    · exact hnext
    · exact hall m hm

/-- Along a path a live timer stays where it waits unless it is removed. -/
theorem stays_live {s : SchedulerId} {t : TimerId} {kind : QueueKind} {trigger : Trigger}
    (h : w₁.Path ms w₂) (hw : w₁.Sound) (hlive : (w₁.timer t).triggered = false)
    (hmem : (t, trigger) ∈ w₁.waiting s kind) (hremoves : ∀ m ∈ ms, ¬ m.event.Removes t) :
    (w₂.timer t).triggered = false ∧ (t, trigger) ∈ w₂.waiting s kind := by
  induction h with
  | nil => exact ⟨hlive, hmem⟩
  | cons hrest hstep ih =>
    obtain ⟨hlive', hmem'⟩ := ih fun m hm => hremoves m (List.mem_cons_of_mem _ hm)
    exact hstep.stays_live (hrest.sound hw).1 hlive' hmem' (hremoves _ List.mem_cons_self)

/-- Along a path a timer that nothing touches keeps its row and its place. -/
theorem unchanged {t : TimerId} (h : w₁.Path ms w₂)
    (htouch : ∀ m ∈ ms, ¬ m.event.Touches m.world t) : Unchanged w₁ w₂ t := by
  induction h with
  | nil => exact .refl w₁ t
  | cons _ hstep ih =>
    exact (ih fun m hm => htouch m (List.mem_cons_of_mem _ hm)).trans
      (hstep.unchanged (htouch _ List.mem_cons_self))

end Path

end World
end Timekeeping
