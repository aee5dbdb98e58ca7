import Timekeeping.Proofs.Run.Steps

/-!
Entries with the same trigger stand in their queue in the order in which their
timers were queued. When that was is read off the journal, where both a request
and the firing of a repeating timer may have queued it last.
-/
namespace Timekeeping

/-- The timer that is queued: on request, or again when it is fired and repeats. -/
def Event.queues? : Event → Option TimerId
  | armed _ t _ _ => some t
  | started _ t _ _ _ _ => some t
  | _ => none

def Event.Queues (e : Event) (t : TimerId) : Prop := e.queues? = some t

instance (e : Event) (t : TimerId) : Decidable (e.Queues t) :=
  inferInstanceAs (Decidable (e.queues? = some t))

theorem Event.not_queues_of_eq_none {e : Event} (h : e.queues? = none) (t : TimerId) :
    ¬ e.Queues t := by
  simp [Event.Queues, h]

theorem Event.not_queues_of_ne {e : Event} {t u : TimerId} (h : e.queues? = some t) (hne : u ≠ t) :
    ¬ e.Queues u := by
  simpa [Event.Queues, h] using hne.symm

/-- How many moments there were when a timer was queued last. -/
def queuedAt (journal : List Moment) (t : TimerId) : Nat :=
  (journal.dropWhile fun m => !decide (m.event.Queues t)).length

theorem queuedAt_cons_of_queues {m : Moment} {ms : List Moment} {t : TimerId}
    (h : m.event.Queues t) : queuedAt (m :: ms) t = ms.length + 1 := by
  unfold queuedAt
  rw [List.dropWhile_cons_of_neg (by simpa using h), List.length_cons]

theorem queuedAt_cons_of_not_queues {m : Moment} {ms : List Moment} {t : TimerId}
    (h : ¬ m.event.Queues t) : queuedAt (m :: ms) t = queuedAt ms t := by
  unfold queuedAt
  rw [List.dropWhile_cons_of_pos (by simpa using h)]

theorem queuedAt_le_length (ms : List Moment) (t : TimerId) : queuedAt ms t ≤ ms.length :=
  (List.dropWhile_sublist _).length_le

/-- A new entry comes after all others with the same trigger. -/
theorem Scheduler.exists_waiting_enqueue {S : Scheduler} (h : S.Ordered) (t : TimerId)
    (trigger : Trigger) :
    ∃ front back, S.waiting trigger.kind = front ++ back ∧
      (S.enqueue t trigger).waiting trigger.kind = front ++ (t, trigger) :: back ∧
      ∀ x ∈ back, x.2 ≠ trigger := by
  cases trigger with
  | onClock time =>
    refine ⟨(S.active.upTo time).map fun e => (e.item, .onClock e.key),
      (S.active.after time).map fun e => (e.item, .onClock e.key), ?_, ?_, ?_⟩
    · rw [← List.map_append, Queue.upTo_append_after]
      rfl
    · exact List.map_append
    · intro x hx heq
      obtain ⟨e, he, rfl⟩ := List.mem_map.mp hx
      obtain rfl : e.key = time := Trigger.onClock.inj heq
      exact Queue.not_le_of_mem_after h.1 he (Std.le_refl _)
  | afterIdle delay =>
    refine ⟨(S.idle.upTo delay).map fun e => (e.item, .afterIdle e.key),
      (S.idle.after delay).map fun e => (e.item, .afterIdle e.key), ?_, ?_, ?_⟩
    · rw [← List.map_append, Queue.upTo_append_after]
      rfl
    · exact List.map_append
    · intro x hx heq
      obtain ⟨e, he, rfl⟩ := List.mem_map.mp hx
      obtain rfl : e.key = delay := Trigger.afterIdle.inj heq
      exact Queue.not_le_of_mem_after h.2 he (Std.le_refl _)

namespace World

/-- Entries with the same trigger stand in the order of their timers' ranks. -/
def InOrder (rank : TimerId → Nat) (w : World) : Prop :=
  ∀ s kind, (w.waiting s kind).Pairwise fun a b => a.2 = b.2 → rank a.1 < rank b.1

namespace InOrder

variable {rank rank' : TimerId → Nat} {w w' : World} {s : SchedulerId} {t : TimerId}
  {trigger : Trigger} {triggered : Bool}

theorem of_sublist (h : w.InOrder rank)
    (hsub : ∀ s kind, (w'.waiting s kind).Sublist (w.waiting s kind)) : w'.InOrder rank :=
  fun s kind => (h s kind).sublist (hsub s kind)

/-- Only the ranks of timers that wait matter. -/
theorem congr (h : w.InOrder rank)
    (hrank : ∀ {s kind x}, x ∈ w.waiting s kind → rank' x.1 = rank x.1) : w.InOrder rank' := by
  intro s kind
  refine (h s kind).imp_of_mem fun {a b} ha hb hab heq => ?_
  rw [hrank ha, hrank hb]
  exact hab heq

theorem dequeue (h : w.InOrder rank) (s : SchedulerId) (t : TimerId) (kind : QueueKind) :
    (w.dequeue s t kind).InOrder rank :=
  h.of_sublist fun _ _ => waiting_dequeue_sublist

theorem cancel (h : w.InOrder rank) (s : SchedulerId) (t : TimerId) :
    (w.cancel s t).InOrder rank := by
  obtain ⟨-, heq⟩ | ⟨kind, -, heq⟩ := cancel_cases w s t
  · rw [heq]
    exact h
  · rw [heq]
    exact h.dequeue s t kind

theorem cancelAll (h : w.InOrder rank) (s : SchedulerId) (ts : List TimerId) :
    (w.cancelAll s ts).InOrder rank := by
  induction ts generalizing w with
  | nil => exact h
  | cons t rest ih => exact ih (h.cancel s t)

/-- A timer that is queued last may be put behind those with its trigger. -/
theorem enqueue (h : w.InOrder rank) (hw : (w.scheduler s).Ordered)
    (hout : ∀ {s kind x}, x ∈ w.waiting s kind → x.1 ≠ t)
    (hlast : ∀ u, u ≠ t → rank u < rank t) : (w.enqueue s t trigger triggered).InOrder rank := by
  intro s' kind
  have hold := h s' kind
  unfold waiting at hold ⊢
  rw [scheduler_enqueue]
  by_cases hs : s = s'
  · subst hs
    rw [if_pos rfl]
    by_cases hk : trigger.kind = kind
    · subst hk
      obtain ⟨front, back, hfront, hnew, hback⟩ := Scheduler.exists_waiting_enqueue hw t trigger
      have hbelow : ∀ x ∈ front, rank x.1 < rank t := by
        intro x hx
        have hmem : x ∈ w.waiting s trigger.kind := by
          unfold waiting
          rw [hfront]
          exact List.mem_append_left _ hx
        exact hlast x.1 (hout hmem)
      rw [hfront] at hold
      obtain ⟨hfirst, hsecond, hcross⟩ := List.pairwise_append.mp hold
      rw [hnew]
      refine List.pairwise_append.mpr ⟨hfirst, List.pairwise_cons.mpr ⟨?_, hsecond⟩, ?_⟩
      · exact fun x hx heq => absurd heq.symm (hback x hx)
      · intro a ha b hb
        rcases List.mem_cons.mp hb with rfl | hb
        · exact fun _ => hbelow a ha
        · exact hcross a ha b hb
    · rw [Scheduler.waiting_enqueue_of_ne hk]
      exact hold
  · rw [if_neg hs]
    exact hold

/-- A timer that is fired leaves its queue, and if it comes back, is the last that was queued. -/
theorem withdraw {kind : QueueKind} (h : w.InOrder rank) (hw : w.Sound)
    (hkind : w.queueOf? s t = some kind) (hrank : ∀ u, u ≠ t → rank' u = rank u)
    (hlast : ∀ u, u ≠ t → rank' u < rank' t) : (w.withdraw s t kind).InOrder rank' := by
  obtain ⟨-, trigger, hmem⟩ := (queueOf?_eq_some_iff w s t kind).mp hkind
  have hout : ∀ {s' kind' x}, x ∈ (w.dequeue s t kind).waiting s' kind' → x.1 ≠ t := by
    intro s' kind' x hx heq
    have hrow : ((w.dequeue s t kind).timer x.1).queued = none := by
      rw [timer_dequeue, if_pos heq.symm]
    exact (hw.dequeue hkind).not_mem_waiting hrow hx
  have hleft : (w.dequeue s t kind).InOrder rank' :=
    (h.dequeue s t kind).congr fun hx => hrank _ (hout hx)
  have hordered : ((w.dequeue s t kind).scheduler s).Ordered := (hw.dequeue hkind).ordered s
  unfold World.withdraw
  dsimp only
  obtain heq | ⟨next, heq⟩ := requeue_cases ((w.dequeue s t kind).setTimer t
    { (w.dequeue s t kind).timer t with triggered := true }) s t (w.timer t)
  · rw [heq]
    exact hleft
  · rw [heq]
    exact enqueue hleft hordered hout hlast

end InOrder

variable {e : Event} {w w' : World} {ms : List Moment}

theorem queuedAt_lt {m : Moment} {t u : TimerId} (hm : m.event.queues? = some t)
    (hu : u ≠ t) : queuedAt (m :: ms) u < queuedAt (m :: ms) t := by
  rw [queuedAt_cons_of_queues hm, queuedAt_cons_of_not_queues (Event.not_queues_of_ne hm hu)]
  exact Nat.lt_succ_of_le (queuedAt_le_length ms u)

/-- A step keeps the entries with one trigger in the order in which their timers were queued. -/
theorem Step.inOrder (h : w.Step e w') (hw : w.Sound) (hms : w.InOrder (queuedAt ms)) :
    w'.InOrder (queuedAt (⟨e, w'⟩ :: ms)) := by
  have hkeep : ∀ {t u : TimerId}, e.queues? = some t → u ≠ t →
      queuedAt (⟨e, w'⟩ :: ms) u = queuedAt ms u :=
    fun hqueues hne => queuedAt_cons_of_not_queues (Event.not_queues_of_ne hqueues hne)
  have hsame : e.queues? = none → w'.InOrder (queuedAt ms) →
      w'.InOrder (queuedAt (⟨e, w'⟩ :: ms)) :=
    fun hnone hold => hold.congr fun _ =>
      queuedAt_cons_of_not_queues (Event.not_queues_of_eq_none hnone _)
  cases h with
  | @armed s t trigger triggered ht hmade =>
    have hout : ∀ {s kind x}, x ∈ w.waiting s kind → x.1 ≠ t := by
      rintro s kind ⟨u, trigger'⟩ hx rfl
      exact hw.not_mem_waiting ht.queued hx
    have hold := hms.congr fun hx => hkeep rfl (hout hx)
    exact hold.enqueue (hw.ordered s) hout fun u hu => queuedAt_lt rfl hu
  | @scheduled s r trigger triggered hr =>
    have hcreated : (w.create r).2.InOrder (queuedAt ms) := hms
    have hout : ∀ {s kind x}, x ∈ (w.create r).2.waiting s kind → x.1 ≠ ⟨w.created⟩ := by
      rintro s kind ⟨u, trigger'⟩ hx rfl
      exact hw.not_mem_waiting hw.queued_new hx
    have hold := hcreated.congr fun hx => hkeep rfl (hout hx)
    exact hold.enqueue ((hw.create hr.queued).ordered s) hout
      fun u hu => queuedAt_lt rfl hu
  | @started s t start w₁ htake =>
    obtain ⟨kind, S, hkind, -, ha, hi, rfl⟩ := take_eq_started htake
    have hleft := hms.withdraw hw hkind (fun u hu => hkeep rfl hu)
      fun u hu => queuedAt_lt rfl hu
    exact hleft.of_sublist fun s' kind' => by
      rw [← waiting_setScheduler ha hi s' kind']
      exact List.Sublist.refl _
  | emptied htake =>
    obtain ⟨kind, hkind, hnone, rfl⟩ := take_eq_idle htake
    have hqueued := ((queueOf?_eq_some_iff _ _ _ _).mp hkind).1
    exact absurd hnone (hw.callback (by simp [hqueued]))
  | adjusted hadjust =>
    obtain ⟨-, r, -, rfl⟩ := adjust_eq_ok hadjust
    exact hsame rfl hms
  | cancelled s hts => exact hsame rfl (hms.cancelAll s _)
  | idleStarted s =>
    exact hsame rfl (hms.of_sublist fun s' kind => by rw [startIdle_eq, waiting_rouse])
  | contextChanged s context =>
    refine hsame rfl (hms.of_sublist fun s' kind => ?_)
    rw [waiting_setScheduler]
    · rfl
    · rfl
  | settled s t start =>
    exact hsame rfl (hms.of_sublist fun s' kind => by rw [waiting_settle])
  | _ => exact hsame rfl hms

/-- At the end of a path that starts with empty queues, entries with one trigger stand in the order
in which their timers were queued. -/
theorem Path.inOrder {w₁ w₂ : World} (h : w₁.Path ms w₂) (hw : w₁.Sound)
    (hempty : ∀ s kind, w₁.waiting s kind = []) : w₂.InOrder (queuedAt ms) := by
  induction h with
  | nil =>
    intro s kind
    rw [hempty]
    exact .nil
  | cons hrest hstep ih => exact hstep.inOrder (hrest.sound hw).1 ih

end World
end Timekeeping
