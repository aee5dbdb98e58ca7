import Timekeeping.World
import Timekeeping.Proofs.State.Ordered
import Timekeeping.Proofs.Time.Ordering

/-!
Which timers wait in which queue and under which trigger, and what queueing a
timer and taking it out change about that.
-/
namespace Timekeeping

/-- Where names are distinct, taking the first entry of a name out takes out all of them. -/
theorem mem_eraseP_iff_of_nodup {ι β : Type} [DecidableEq ι] {l : List (ι × β)}
    (h : (l.map Prod.fst).Nodup) (i : ι) (x : ι × β) :
    x ∈ l.eraseP (fun y => y.1 = i) ↔ x ∈ l ∧ x.1 ≠ i := by
  induction l with
  | nil => simp
  | cons y rest ih =>
    obtain ⟨hy, hrest⟩ := List.nodup_cons.mp h
    by_cases hi : y.1 = i
    · rw [List.eraseP_cons_of_pos (by simpa using hi)]
      constructor
      · intro hx
        refine ⟨List.mem_cons_of_mem _ hx, fun he => hy ?_⟩
        rw [hi, ← he]
        exact List.mem_map_of_mem hx
      · rintro ⟨hx, hne⟩
        rcases List.mem_cons.mp hx with rfl | hx
        · exact absurd hi hne
        · exact hx
    · rw [List.eraseP_cons_of_neg (by simpa using hi), List.mem_cons, List.mem_cons, ih hrest]
      constructor
      · rintro (rfl | ⟨hx, hne⟩)
        · exact ⟨Or.inl rfl, hi⟩
        · exact ⟨Or.inr hx, hne⟩
      · rintro ⟨rfl | hx, hne⟩
        · exact Or.inl rfl
        · exact Or.inr ⟨hx, hne⟩

namespace Scheduler

/-- The timers in a queue, with the triggers under which they were queued. -/
def waiting (S : Scheduler) : QueueKind → List (TimerId × Trigger)
  | .active => S.active.entries.map fun e => (e.item, .onClock e.key)
  | .idle => S.idle.entries.map fun e => (e.item, .afterIdle e.key)

/-- The timers that wait in a scheduler, those of the active queue first. -/
def items (S : Scheduler) : List TimerId := S.active.items ++ S.idle.items

/-- Both queues are in the order of their keys. -/
def Ordered (S : Scheduler) : Prop := S.active.Ordered ∧ S.idle.Ordered

variable {S : Scheduler} {t : TimerId} {kind : QueueKind}

theorem kind_of_mem_waiting {x : TimerId × Trigger} (h : x ∈ S.waiting kind) :
    x.2.kind = kind := by
  cases kind with
  | active =>
    obtain ⟨e, -, rfl⟩ := List.mem_map.mp h
    rfl
  | idle =>
    obtain ⟨e, -, rfl⟩ := List.mem_map.mp h
    rfl

theorem contains_iff : S.contains t kind = true ↔ ∃ trigger, (t, trigger) ∈ S.waiting kind := by
  cases kind with
  | active =>
    change S.active.contains t = true ↔ _
    rw [Queue.contains_iff]
    simp [waiting]
  | idle =>
    change S.idle.contains t = true ↔ _
    rw [Queue.contains_iff]
    simp [waiting]

theorem waiting_enqueue_perm (S : Scheduler) (t : TimerId) (trigger : Trigger) :
    ((S.enqueue t trigger).waiting trigger.kind).Perm ((t, trigger) :: S.waiting trigger.kind) := by
  cases trigger with
  | onClock time => exact (Queue.insert_perm S.active time t).map _
  | afterIdle delay => exact (Queue.insert_perm S.idle delay t).map _

theorem waiting_enqueue_of_ne {trigger : Trigger} (h : trigger.kind ≠ kind) :
    (S.enqueue t trigger).waiting kind = S.waiting kind := by
  cases trigger <;> cases kind <;> first | rfl | exact absurd rfl h

theorem waiting_dequeue (S : Scheduler) (t : TimerId) (kind : QueueKind) :
    (S.dequeue t kind).waiting kind = (S.waiting kind).eraseP fun x => x.1 = t := by
  cases kind with
  | active =>
    simp only [waiting, dequeue, Queue.remove, List.eraseP_map]
    rfl
  | idle =>
    simp only [waiting, dequeue, Queue.remove, List.eraseP_map]
    rfl

theorem waiting_dequeue_of_ne {kind' : QueueKind} (h : kind ≠ kind') :
    (S.dequeue t kind).waiting kind' = S.waiting kind' := by
  cases kind <;> cases kind' <;> first | rfl | exact absurd rfl h

theorem Ordered.enqueue (h : S.Ordered) (t : TimerId) (trigger : Trigger) :
    (S.enqueue t trigger).Ordered := by
  cases trigger with
  | onClock time => exact ⟨h.1.insert time t, h.2⟩
  | afterIdle delay => exact ⟨h.1, h.2.insert delay t⟩

theorem Ordered.dequeue (h : S.Ordered) (t : TimerId) (kind : QueueKind) :
    (S.dequeue t kind).Ordered := by
  cases kind with
  | active => exact ⟨h.1.remove t, h.2⟩
  | idle => exact ⟨h.1, h.2.remove t⟩

end Scheduler

namespace World

def waiting (w : World) (s : SchedulerId) (kind : QueueKind) : List (TimerId × Trigger) :=
  (w.scheduler s).waiting kind

variable (w : World) (s s' : SchedulerId) (t u : TimerId) (kind : QueueKind)

@[simp] theorem waiting_setTimer (r : Timer) :
    (w.setTimer t r).waiting s kind = w.waiting s kind := rfl

theorem timer_enqueue (trigger : Trigger) (triggered : Bool) :
    (w.enqueue s t trigger triggered).timer u =
      if t = u then { w.timer t with triggered, queued := some trigger.kind } else w.timer u := by
  simp [enqueue]

theorem scheduler_enqueue (trigger : Trigger) (triggered : Bool) :
    (w.enqueue s t trigger triggered).scheduler s' =
      if s = s' then (w.scheduler s).enqueue t trigger else w.scheduler s' := by
  simp [enqueue]

theorem timer_dequeue :
    (w.dequeue s t kind).timer u =
      if t = u then { w.timer t with queued := none } else w.timer u := by
  simp [dequeue]

theorem scheduler_dequeue :
    (w.dequeue s t kind).scheduler s' =
      if s = s' then (w.scheduler s).dequeue t kind else w.scheduler s' := by
  simp [dequeue]

theorem timer_create (r : Timer) :
    (w.create r).2.timer u = if ⟨w.created⟩ = u then r else w.timer u := by
  change (w.setTimer ⟨w.created⟩ r).timer u = _
  simp

/-- A timer that is found waits in the queue that its row names. -/
theorem queueOf?_eq_some_iff :
    w.queueOf? s t = some kind ↔
      (w.timer t).queued = some kind ∧ ∃ trigger, (t, trigger) ∈ w.waiting s kind := by
  unfold queueOf?
  rw [Option.filter_eq_some_iff, Scheduler.contains_iff]
  rfl

/-- Worlds with the same queues have the same timers waiting. -/
theorem waiting_congr {w w' : World}
    (hactive : ∀ s, (w'.scheduler s).active = (w.scheduler s).active)
    (hidle : ∀ s, (w'.scheduler s).idle = (w.scheduler s).idle) (s : SchedulerId)
    (kind : QueueKind) : w'.waiting s kind = w.waiting s kind := by
  cases kind with
  | active => simp only [waiting, Scheduler.waiting, hactive]
  | idle => simp only [waiting, Scheduler.waiting, hidle]

/-- A scheduler may change beside its queues. -/
theorem active_setScheduler {w : World} {s : SchedulerId} {S : Scheduler}
    (h : S.active = (w.scheduler s).active) (s' : SchedulerId) :
    ((w.setScheduler s S).scheduler s').active = (w.scheduler s').active := by
  rw [scheduler_setScheduler]
  split
  · subst s'
    exact h
  · rfl

theorem idle_setScheduler {w : World} {s : SchedulerId} {S : Scheduler}
    (h : S.idle = (w.scheduler s).idle) (s' : SchedulerId) :
    ((w.setScheduler s S).scheduler s').idle = (w.scheduler s').idle := by
  rw [scheduler_setScheduler]
  split
  · subst s'
    exact h
  · rfl

theorem waiting_setScheduler {w : World} {s : SchedulerId} {S : Scheduler}
    (ha : S.active = (w.scheduler s).active) (hi : S.idle = (w.scheduler s).idle)
    (s' : SchedulerId) (kind : QueueKind) :
    (w.setScheduler s S).waiting s' kind = w.waiting s' kind :=
  waiting_congr (active_setScheduler ha) (idle_setScheduler hi) s' kind

section Items

variable {w : World} {s : SchedulerId} {t : TimerId}

theorem map_fst_waiting_active (w : World) (s : SchedulerId) :
    (w.waiting s .active).map Prod.fst = (w.scheduler s).active.items := by
  simp [waiting, Scheduler.waiting, Queue.items]

theorem map_fst_waiting_idle (w : World) (s : SchedulerId) :
    (w.waiting s .idle).map Prod.fst = (w.scheduler s).idle.items := by
  simp [waiting, Scheduler.waiting, Queue.items]

theorem mem_active_items :
    t ∈ (w.scheduler s).active.items ↔ ∃ trigger, (t, trigger) ∈ w.waiting s .active := by
  simp [← map_fst_waiting_active]

theorem mem_idle_items :
    t ∈ (w.scheduler s).idle.items ↔ ∃ trigger, (t, trigger) ∈ w.waiting s .idle := by
  simp [← map_fst_waiting_idle]

theorem mem_items :
    t ∈ (w.scheduler s).items ↔ ∃ kind trigger, (t, trigger) ∈ w.waiting s kind := by
  unfold Scheduler.items
  rw [List.mem_append, mem_active_items, mem_idle_items]
  constructor
  · rintro (⟨trigger, hmem⟩ | ⟨trigger, hmem⟩)
    · exact ⟨.active, trigger, hmem⟩
    · exact ⟨.idle, trigger, hmem⟩
  · rintro ⟨kind, trigger, hmem⟩
    cases kind with
    | active => exact Or.inl ⟨trigger, hmem⟩
    | idle => exact Or.inr ⟨trigger, hmem⟩

end Items

end World
end Timekeeping
