import Timekeeping.Proofs.Run.Reachability

/-!
Schedulers side by side. A step on one of them leaves all others as they are, and with
them the rows of the timers that wait there, for a timer waits in one scheduler only. The
end of a firing is a step that names a timer without asking where it waits by then. But it
had waited in the scheduler of the firing when that began, and nothing has put it into
another one since, if nothing was done there.
-/
namespace Timekeeping

open Act

namespace World

/-- A scheduler has the same queues, history, context and settings in both worlds, and the timers in its
queues have the same rows. -/
structure SameAt (s : SchedulerId) (w w' : World) : Prop where
  scheduler : w'.scheduler s = w.scheduler s
  timer : ∀ t ∈ (w.scheduler s).items, w'.timer t = w.timer t

variable {w w' w₁ w₂ w₃ : World} {e : Event} {s s' : SchedulerId} {t : TimerId}

theorem SameAt.refl (s : SchedulerId) (w : World) : SameAt s w w := ⟨rfl, fun _ _ => rfl⟩

theorem SameAt.trans (h : SameAt s w₁ w₂) (h' : SameAt s w₂ w₃) : SameAt s w₁ w₃ :=
  ⟨h'.scheduler.trans h.scheduler,
    fun t ht => (h'.timer t (h.scheduler ▸ ht)).trans (h.timer t ht)⟩

section Schedulers

theorem scheduler_rouse (w : World) (ts : List TimerId) (s : SchedulerId) :
    (w.rouse ts).scheduler s = w.scheduler s := by
  induction ts generalizing w with
  | nil => rfl
  | cons t rest ih => exact ih _

theorem scheduler_cancelAll_of_ne (hne : s' ≠ s) (ts : List TimerId) :
    (w.cancelAll s' ts).scheduler s = w.scheduler s := by
  induction ts generalizing w with
  | nil => rfl
  | cons t rest ih =>
    refine (ih (w := w.cancel s' t)).trans ?_
    obtain ⟨-, heq⟩ | ⟨kind, -, heq⟩ := cancel_cases w s' t
    · rw [heq]
    · rw [heq, scheduler_dequeue, if_neg hne]

theorem scheduler_withdraw_of_ne (hne : s' ≠ s) (t : TimerId) (kind : QueueKind) :
    (w.withdraw s' t kind).scheduler s = w.scheduler s := by
  unfold withdraw
  dsimp only
  obtain heq | ⟨next, heq⟩ := requeue_cases ((w.dequeue s' t kind).setTimer t
    { (w.dequeue s' t kind).timer t with triggered := true }) s' t (w.timer t)
  · rw [heq, scheduler_setTimer, scheduler_dequeue, if_neg hne]
  · rw [heq, scheduler_enqueue, if_neg hne, scheduler_setTimer, scheduler_setTimer,
      scheduler_dequeue, if_neg hne]

theorem scheduler_settle_of_ne (hne : s' ≠ s) (t : TimerId) (start : Started) :
    (w.settle s' t start).scheduler s = w.scheduler s := by
  obtain heq | heq := settle_cases w s' t start
  · rw [heq, scheduler_setScheduler, if_neg hne]
  · rw [heq, scheduler_setTimer, scheduler_setScheduler, if_neg hne]

/-- A step changes no scheduler but the one that it belongs to. -/
theorem Step.scheduler_eq (h : w.Step e w') (hs : e.scheduler? ≠ some s) :
    w'.scheduler s = w.scheduler s := by
  have hne : ∀ s', e.scheduler? = some s' → s' ≠ s := fun s' hs' heq => hs (heq ▸ hs')
  cases h with
  | adjusted hadjust =>
    obtain ⟨-, r, -, rfl⟩ := adjust_eq_ok hadjust
    rfl
  | armed s' triggered hrow hmade => rw [scheduler_enqueue, if_neg (hne s' rfl)]
  | @scheduled s' r trigger triggered hr =>
    rw [scheduler_enqueue, if_neg (hne s' rfl)]
    rfl
  | cancelled s' hts => exact scheduler_cancelAll_of_ne (hne s' rfl) _
  | idleStarted s' => exact scheduler_rouse w _ s
  | contextChanged s' context => rw [scheduler_setScheduler, if_neg (hne s' rfl)]
  | @started s' u start w₁ htake =>
    obtain ⟨kind, S, -, -, -, -, rfl⟩ := take_eq_started htake
    change ((w.withdraw s' u kind).setScheduler s' S).scheduler s = _
    rw [scheduler_setScheduler, if_neg (hne s' rfl), scheduler_withdraw_of_ne (hne s' rfl)]
  | settled s' u start => exact scheduler_settle_of_ne (hne s' rfl) u start
  | @emptied s' u w₁ htake =>
    obtain ⟨kind, -, -, rfl⟩ := take_eq_idle htake
    exact scheduler_withdraw_of_ne (hne s' rfl) u kind
  | _ => rfl

end Schedulers

section Rows

/-- A timer that waits in one scheduler is found in no other. -/
theorem Sound.queueOf?_of_ne (h : w.Sound) (ht : t ∈ (w.scheduler s).items) (hne : s' ≠ s) :
    w.queueOf? s' t = none := by
  cases hkind : w.queueOf? s' t with
  | none => rfl
  | some kind => exact (h.disjoint_items hne (mem_items_of_queueOf? hkind) ht).elim

/-- A timer that a step removes from its queue waits in the scheduler of the step. -/
theorem Step.mem_items_of_removes (h : w.Step e w') (hremoves : e.Removes t) :
    ∃ s, e.scheduler? = some s ∧ t ∈ (w.scheduler s).items := by
  cases h with
  | cancelled s hts => exact ⟨s, rfl, mem_items.mpr (hts t hremoves)⟩
  | started htake =>
    obtain rfl : _ = t := hremoves
    obtain ⟨kind, S, hkind, -⟩ := take_eq_started htake
    exact ⟨_, rfl, mem_items_of_queueOf? hkind⟩
  | emptied htake =>
    obtain rfl : _ = t := hremoves
    obtain ⟨kind, hkind, -⟩ := take_eq_idle htake
    exact ⟨_, rfl, mem_items_of_queueOf? hkind⟩
  | _ => exact hremoves.elim

/-- A step that does not end a firing leaves the scheduler alone that it does not belong to. -/
theorem Step.sameAt (h : w.Step e w') (hw : w.Sound) (hsettles : e.settles = false)
    (hs : e.scheduler? ≠ some s) : SameAt s w w' := by
  refine ⟨h.scheduler_eq hs, fun t ht => ?_⟩
  have hne : ∀ s', e.scheduler? = some s' → s' ≠ s := fun s' hs' heq => hs (heq ▸ hs')
  by_cases htouch : e.Touches w' t
  · have hqueued : (w.timer t).queued ≠ none := fun hout =>
      hw.queued_eq_none_iff.mp hout s ht
    -- What touches the timer does so in a scheduler where it waits.
    obtain ⟨s', hs', hmem⟩ : ∃ s', e.scheduler? = some s' ∧ t ∈ (w.scheduler s').items := by
      rcases h.touches_queued hw hqueued htouch with
        hremoves | ⟨s', trigger, rfl, -, hmem⟩ | ⟨s', start, rfl, -⟩
      · exact h.mem_items_of_removes hremoves
      · exact ⟨s', rfl, mem_items.mpr ⟨.idle, trigger, hmem⟩⟩
      · cases hsettles
    exact (hw.disjoint_items (hne s' hs') hmem ht).elim
  · exact (h.unchanged htouch).timer

/-- The end of a firing leaves another scheduler alone in which the timer does not wait. -/
theorem SameAt.settle (hne : s' ≠ s) (ht : t ∉ (w.scheduler s).items) (start : Started) :
    SameAt s w (w.settle s' t start) := by
  refine ⟨scheduler_settle_of_ne hne t start, fun u hu => timer_settle_of_ne ?_ start⟩
  rintro rfl
  exact ht hu

end Rows

end World

namespace Run

/-- No step between two runs belongs to the scheduler. -/
def Avoids (s : SchedulerId) (r r' : Run) : Prop :=
  ∃ since, r'.journal = since ++ r.journal ∧ ∀ m ∈ since, m.event.scheduler? ≠ some s

variable {s : SchedulerId} {r r' r₁ r₂ r₃ : Run} {e : Event} {w : World}

theorem Avoids.refl (s : SchedulerId) (r : Run) : Avoids s r r :=
  ⟨[], rfl, fun _ hm => absurd hm List.not_mem_nil⟩

theorem Avoids.trans (h : Avoids s r₁ r₂) (h' : Avoids s r₂ r₃) : Avoids s r₁ r₃ := by
  obtain ⟨since, hjournal, havoided⟩ := h
  obtain ⟨since', hjournal', havoided'⟩ := h'
  refine ⟨since' ++ since, by rw [hjournal', hjournal, List.append_assoc], fun m hm => ?_⟩
  exact (List.mem_append.mp hm).elim (havoided' m) (havoided m)

theorem Avoids.advance (r : Run) (w : World) (hs : e.scheduler? ≠ some s) :
    Avoids s r (r.advance e w) := by
  refine ⟨[⟨e, w⟩], rfl, fun m hm => ?_⟩
  obtain rfl := List.mem_singleton.mp hm
  exact hs

/-- No step belongs to a scheduler that no operation is performed on. -/
theorem closed_avoids (own : Option Nat) (s : SchedulerId) : Closed own (· ≠ s) (Avoids s) where
  refl := .refl s
  trans := .trans
  advance _ hwithin := .advance _ _ fun hs => hwithin.scheduler s hs rfl
  settle hne _ _ hback := hback.trans (.advance _ _ fun hs => hne (Option.some.inj hs))

theorem Avoids.scheduler_ne (h : Avoids s r (r.advance e w)) : e.scheduler? ≠ some s := by
  obtain ⟨since, hjournal, havoided⟩ := h
  obtain rfl : [⟨e, w⟩] = since := List.append_cancel_right hjournal
  exact havoided _ List.mem_cons_self

theorem Avoids.split (h : Avoids s r₁ r₃) (h₁ : r₁.journal <:+ r₂.journal)
    (h₂ : r₂.journal <:+ r₃.journal) : Avoids s r₁ r₂ ∧ Avoids s r₂ r₃ := by
  obtain ⟨since, hjournal, havoided⟩ := h
  obtain ⟨before, hbefore⟩ := h₁
  obtain ⟨later, hlater⟩ := h₂
  obtain rfl : later ++ before = since := by
    refine List.append_cancel_right (?_ : _ ++ r₁.journal = _)
    rw [← hjournal, ← hlater, ← hbefore, List.append_assoc]
  refine ⟨⟨before, hbefore.symm, fun m hm => ?_⟩, ⟨later, hlater.symm, fun m hm => ?_⟩⟩
  · exact havoided m (List.mem_append_right later hm)
  · exact havoided m (List.mem_append_left before hm)

/-- The run goes on from another one, and the scheduler is left alone unless a step in between belongs
to it. -/
structure Bypasses (s : SchedulerId) (r r' : Run) : Prop where
  sound : r'.world.Sound
  journal : r.journal <:+ r'.journal
  sameAt : Avoids s r r' → World.SameAt s r.world r'.world

theorem Bypasses.trans (h : Bypasses s r₁ r₂) (h' : Bypasses s r₂ r₃) : Bypasses s r₁ r₃ where
  sound := h'.sound
  journal := h.journal.trans h'.journal
  sameAt havoids :=
    have ⟨hfirst, hrest⟩ := havoids.split h.journal h'.journal
    (h.sameAt hfirst).trans (h'.sameAt hrest)

/-- One step that leaves the scheduler alone if it does not belong to it. -/
theorem Bypasses.advance (hw : w.Sound)
    (hsame : e.scheduler? ≠ some s → World.SameAt s r.world w) : Bypasses s r (r.advance e w) :=
  ⟨hw, List.suffix_cons _ _, fun havoids => hsame havoids.scheduler_ne⟩

/-- What ends a firing names a timer that had waited in the scheduler of the firing, and so in no
other one, when the firing began. -/
theorem closed_bypasses (own : Option Nat) (s : SchedulerId) :
    Closed own (fun _ => True) fun r r' => r.world.Sound → Bypasses s r r' where
  refl r := fun hr => ⟨hr, List.suffix_refl _, fun _ => .refl s r.world⟩
  trans h h' := fun hr => (h hr).trans (h' (h hr).sound)
  advance hstep hwithin := fun hr =>
    .advance (hstep.sound hr) fun hs => hstep.sameAt hr hwithin.settles hs
  settle {r back s' t start w} _ htake _ hback := fun hr => by
    obtain ⟨hsound, hjournal, hsame⟩ := hback hr
    refine ⟨hsound.settle s' t start, hjournal.trans (List.suffix_cons _ _), fun havoids => ?_⟩
    obtain ⟨hbefore, hend⟩ := havoids.split hjournal (List.suffix_cons _ _)
    have hne : s' ≠ s := fun heq => hend.scheduler_ne (congrArg some heq)
    obtain ⟨kind, S, hkind, -⟩ := World.take_eq_started htake
    have hother : t ∉ (back.world.scheduler s).items := by
      rw [(hsame hbefore).scheduler]
      exact hr.disjoint_items hne (World.mem_items_of_queueOf? hkind)
    exact (hsame hbefore).trans (.settle hne hother start)

/-- An operation none of whose steps belongs to a scheduler leaves that one alone. -/
theorem Avoids.sameAt {behaviour : Behaviour} {depth : Nat} {operation : Operation}
    (h : Avoids s r (after (execute behaviour depth operation) r)) (hr : r.world.Sound) :
    World.SameAt s r.world (after (execute behaviour depth operation) r).world := by
  have hbypasses := (closed_bypasses none s).execute (fun _ hcall s' _ loop r hr => ?_)
    behaviour.within_all depth operation.within_all r
  · exact (hbypasses hr).sameAt h
  · obtain ⟨hsound, hjournal, hsame⟩ :=
      (closed_bypasses (some r.passes) s).drain hcall trivial loop hr
    exact ⟨hsound, hjournal, hsame⟩

/-- No step of an operation belongs to a scheduler that it is not performed on, if callbacks that other
schedulers start perform nothing on that one either. -/
theorem avoids_execute {behaviour : Behaviour} {operation : Operation}
    (hbehaviour : behaviour.Within (· ≠ s)) (depth : Nat) (hoperation : operation.Within (· ≠ s))
    (r : Run) : Avoids s r (after (execute behaviour depth operation) r) :=
  (closed_avoids none s).execute
    (fun _ hcall _ hne loop r => (closed_avoids (some r.passes) s).drain hcall hne loop)
    hbehaviour depth hoperation r

end Run
end Timekeeping
