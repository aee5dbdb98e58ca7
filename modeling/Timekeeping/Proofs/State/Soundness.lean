import Timekeeping.Proofs.State.Waiting

/-!
Where a timer waits is written twice: its row names a kind of queue, and one
queue of that kind holds it. This module says when the two agree and shows that
they agree after a timer is made, changed, queued or taken out.
-/
namespace Timekeeping.World

/-- The queues and the rows of timers agree. -/
structure Sound (w : World) : Prop where
  ordered : ∀ s, (w.scheduler s).Ordered
  nodup : ∀ s kind, ((w.waiting s kind).map Prod.fst).Nodup
  entry : ∀ {s kind t trigger}, (t, trigger) ∈ w.waiting s kind →
    (w.timer t).queued = some kind ∧ (w.timer t).trigger = some trigger
  unique : ∀ {s s' kind t trigger trigger'}, (t, trigger) ∈ w.waiting s kind →
    (t, trigger') ∈ w.waiting s' kind → s = s'
  queued : ∀ {t kind}, (w.timer t).queued = some kind →
    ∃ s trigger, (t, trigger) ∈ w.waiting s kind
  callback : ∀ {t}, (w.timer t).queued ≠ none → (w.timer t).callback ≠ none
  made : ∀ {t}, (w.timer t).queued ≠ none → w.made t = true

variable {w w' : World} {s s' : SchedulerId} {t : TimerId} {kind kind' : QueueKind}
  {trigger : Trigger} {triggered : Bool} {x : TimerId × Trigger}

theorem mem_waiting_enqueue :
    x ∈ (w.enqueue s t trigger triggered).waiting s' kind ↔
      x ∈ w.waiting s' kind ∨ s = s' ∧ trigger.kind = kind ∧ x = (t, trigger) := by
  unfold waiting
  rw [scheduler_enqueue]
  by_cases hs : s = s'
  · subst hs
    rw [if_pos rfl]
    by_cases hk : trigger.kind = kind
    · subst hk
      rw [(Scheduler.waiting_enqueue_perm _ t trigger).mem_iff, List.mem_cons]
      simp [or_comm]
    · rw [Scheduler.waiting_enqueue_of_ne hk]
      simp [hk]
  · simp [hs]

theorem nodup_waiting_enqueue (h : ((w.waiting s' kind).map Prod.fst).Nodup)
    (ht : ∀ trigger', (t, trigger') ∉ w.waiting s' kind) :
    (((w.enqueue s t trigger triggered).waiting s' kind).map Prod.fst).Nodup := by
  have hfresh : t ∉ (w.waiting s' kind).map Prod.fst := by
    intro hmem
    obtain ⟨⟨u, trigger'⟩, hu, rfl⟩ := List.mem_map.mp hmem
    exact ht trigger' hu
  unfold waiting at *
  rw [scheduler_enqueue]
  by_cases hs : s = s'
  · subst hs
    rw [if_pos rfl]
    by_cases hk : trigger.kind = kind
    · subst hk
      rw [((Scheduler.waiting_enqueue_perm _ t trigger).map Prod.fst).nodup_iff]
      exact List.nodup_cons.mpr ⟨hfresh, h⟩
    · rw [Scheduler.waiting_enqueue_of_ne hk]
      exact h
  · rw [if_neg hs]
    exact h

theorem mem_waiting_dequeue (h : ((w.waiting s kind).map Prod.fst).Nodup) :
    x ∈ (w.dequeue s t kind).waiting s' kind' ↔
      x ∈ w.waiting s' kind' ∧ ¬ (s = s' ∧ kind = kind' ∧ x.1 = t) := by
  unfold waiting at *
  rw [scheduler_dequeue]
  by_cases hs : s = s'
  · subst hs
    rw [if_pos rfl]
    by_cases hk : kind = kind'
    · subst hk
      rw [Scheduler.waiting_dequeue, mem_eraseP_iff_of_nodup h]
      simp
    · rw [Scheduler.waiting_dequeue_of_ne hk]
      simp [hk]
  · simp [hs]

theorem waiting_dequeue_sublist :
    ((w.dequeue s t kind).waiting s' kind').Sublist (w.waiting s' kind') := by
  unfold waiting
  rw [scheduler_dequeue]
  by_cases hs : s = s'
  · subst hs
    rw [if_pos rfl]
    by_cases hk : kind = kind'
    · subst hk
      rw [Scheduler.waiting_dequeue]
      exact List.eraseP_sublist
    · rw [Scheduler.waiting_dequeue_of_ne hk]
  · rw [if_neg hs]

namespace Sound

theorem not_mem_waiting (h : w.Sound) (ht : (w.timer t).queued = none) :
    (t, trigger) ∉ w.waiting s kind := by
  intro hmem
  have hqueued := (h.entry hmem).1
  rw [ht] at hqueued
  cases hqueued

/-- A timer waits in one queue only. -/
theorem eq_of_mem_waiting {trigger' : Trigger} (h : w.Sound) (ht : (t, trigger) ∈ w.waiting s kind)
    (ht' : (t, trigger') ∈ w.waiting s' kind') : s = s' ∧ kind = kind' ∧ trigger = trigger' := by
  obtain ⟨hq, htr⟩ := h.entry ht
  obtain ⟨hq', htr'⟩ := h.entry ht'
  obtain rfl : kind = kind' := Option.some.inj (hq.symm.trans hq')
  exact ⟨h.unique ht ht', rfl, Option.some.inj (htr.symm.trans htr')⟩

/-- A row names a kind of queue exactly when some queue of that kind holds the timer. -/
theorem queued_iff (h : w.Sound) (kind : QueueKind) :
    (w.timer t).queued = some kind ↔ ∃ s trigger, (t, trigger) ∈ w.waiting s kind :=
  ⟨fun hqueued => h.queued hqueued, fun ⟨_, _, hmem⟩ => (h.entry hmem).1⟩

theorem nodup_items (h : w.Sound) (s : SchedulerId) : (w.scheduler s).items.Nodup := by
  have hactive := h.nodup s .active
  have hidle := h.nodup s .idle
  rw [map_fst_waiting_active] at hactive
  rw [map_fst_waiting_idle] at hidle
  refine List.nodup_append.mpr ⟨hactive, hidle, ?_⟩
  rintro t ht u hu rfl
  obtain ⟨trigger, hmem⟩ := mem_active_items.mp ht
  obtain ⟨trigger', hmem'⟩ := mem_idle_items.mp hu
  obtain ⟨-, hkind, -⟩ := h.eq_of_mem_waiting hmem hmem'
  cases hkind

theorem disjoint_items (h : w.Sound) {s s' : SchedulerId} (hne : s ≠ s') :
    List.Disjoint (w.scheduler s).items (w.scheduler s').items := by
  intro t ht ht'
  obtain ⟨kind, trigger, hmem⟩ := mem_items.mp ht
  obtain ⟨kind', trigger', hmem'⟩ := mem_items.mp ht'
  exact hne (h.eq_of_mem_waiting hmem hmem').1

theorem queued_eq_none_iff (h : w.Sound) :
    (w.timer t).queued = none ↔ ∀ s, t ∉ (w.scheduler s).items := by
  constructor
  · intro hnone s ht
    obtain ⟨kind, trigger, hmem⟩ := mem_items.mp ht
    exact h.not_mem_waiting hnone hmem
  · intro hout
    cases hqueued : (w.timer t).queued with
    | none => rfl
    | some kind =>
      obtain ⟨s, trigger, hmem⟩ := h.queued hqueued
      exact absurd (mem_items.mpr ⟨kind, trigger, hmem⟩) (hout s)

/-- What happens beside the queues and the rows keeps them in agreement. -/
theorem congr (h : w.Sound) (htimer : w'.timers = w.timers) (hcreated : w'.created = w.created)
    (hactive : ∀ s, (w'.scheduler s).active = (w.scheduler s).active)
    (hidle : ∀ s, (w'.scheduler s).idle = (w.scheduler s).idle) : w'.Sound := by
  have hrow : ∀ t, w'.timer t = w.timer t := fun t => congrArg (Table.get · t) htimer
  have hwaiting := waiting_congr hactive hidle
  have hmade : ∀ t, w'.made t = w.made t := fun t => by simp only [World.made, hcreated]
  constructor
  · intro s
    unfold Scheduler.Ordered
    rw [hactive, hidle]
    exact h.ordered s
  · intro s kind
    rw [hwaiting]
    exact h.nodup s kind
  · intro s kind t trigger ht
    rw [hwaiting] at ht
    rw [hrow]
    exact h.entry ht
  · intro s s' kind t trigger trigger' ht ht'
    rw [hwaiting] at ht ht'
    exact h.unique ht ht'
  · intro t kind ht
    rw [hrow] at ht
    obtain ⟨s, trigger, hmem⟩ := h.queued ht
    exact ⟨s, trigger, by rw [hwaiting]; exact hmem⟩
  · intro t ht
    rw [hrow] at ht ⊢
    exact h.callback ht
  · intro t ht
    rw [hrow] at ht
    rw [hmade]
    exact h.made ht

/-- A row may change if the timer keeps its place, and while it has one, its trigger and a
callback. -/
theorem setTimer (h : w.Sound) {r : Timer} (hqueued : r.queued = (w.timer t).queued)
    (hkept : r.queued ≠ none → r.trigger = (w.timer t).trigger ∧ r.callback ≠ none) :
    (w.setTimer t r).Sound := by
  constructor
  · exact h.ordered
  · exact h.nodup
  · intro s kind u trigger hu
    rw [waiting_setTimer] at hu
    obtain ⟨hq, htr⟩ := h.entry hu
    rw [timer_setTimer]
    split
    · subst u
      have hq' := hqueued.trans hq
      have hsome : r.queued ≠ none := by simp [hq']
      exact ⟨hq', (hkept hsome).1.trans htr⟩
    · exact ⟨hq, htr⟩
  · exact h.unique
  · intro u kind hu
    rw [timer_setTimer] at hu
    split at hu
    · subst u
      exact h.queued (hqueued.symm.trans hu)
    · exact h.queued hu
  · intro u hu
    rw [timer_setTimer] at hu ⊢
    split
    · rename_i he
      rw [if_pos he] at hu
      exact (hkept hu).2
    · rename_i he
      rw [if_neg he] at hu
      exact h.callback hu
  · intro u hu
    rw [timer_setTimer] at hu
    split at hu
    · subst u
      exact h.made (by rw [← hqueued]; exact hu)
    · exact h.made hu

/-- A timer that is in no queue may be queued under its trigger. -/
theorem enqueue (h : w.Sound) (hqueued : (w.timer t).queued = none)
    (htrigger : (w.timer t).trigger = some trigger) (hcallback : (w.timer t).callback ≠ none)
    (hmade : w.made t = true) : (w.enqueue s t trigger triggered).Sound := by
  have hfresh : ∀ s' kind trigger', (t, trigger') ∉ w.waiting s' kind :=
    fun s' kind trigger' => h.not_mem_waiting hqueued
  constructor
  · intro s'
    rw [scheduler_enqueue]
    split
    · exact (h.ordered s).enqueue t trigger
    · exact h.ordered s'
  · intro s' kind
    exact nodup_waiting_enqueue (h.nodup s' kind) (hfresh s' kind)
  · intro s' kind u trigger' hu
    rw [timer_enqueue]
    rcases mem_waiting_enqueue.mp hu with hold | ⟨-, rfl, heq⟩
    · have hne : t ≠ u := by
        rintro rfl
        exact hfresh s' kind trigger' hold
      rw [if_neg hne]
      exact h.entry hold
    · obtain ⟨rfl, rfl⟩ := Prod.mk.inj heq
      rw [if_pos rfl]
      exact ⟨rfl, htrigger⟩
  · intro s₁ s₂ kind u trigger₁ trigger₂ hu hu'
    rcases mem_waiting_enqueue.mp hu with hold | ⟨rfl, -, heq⟩
    · rcases mem_waiting_enqueue.mp hu' with hold' | ⟨-, -, heq'⟩
      · exact h.unique hold hold'
      · obtain ⟨rfl, rfl⟩ := Prod.mk.inj heq'
        exact absurd hold (hfresh _ _ _)
    · obtain ⟨rfl, rfl⟩ := Prod.mk.inj heq
      rcases mem_waiting_enqueue.mp hu' with hold' | ⟨rfl, -, -⟩
      · exact absurd hold' (hfresh _ _ _)
      · rfl
  · intro u kind hu
    rw [timer_enqueue] at hu
    split at hu
    · subst u
      have hkind : trigger.kind = kind := Option.some.inj hu
      exact ⟨s, trigger, mem_waiting_enqueue.mpr (Or.inr ⟨rfl, hkind, rfl⟩)⟩
    · obtain ⟨s', trigger', hmem⟩ := h.queued hu
      exact ⟨s', trigger', mem_waiting_enqueue.mpr (Or.inl hmem)⟩
  · intro u hu
    rw [timer_enqueue] at hu ⊢
    split
    · exact hcallback
    · rename_i hne
      rw [if_neg hne] at hu
      exact h.callback hu
  · intro u hu
    rw [timer_enqueue] at hu
    split at hu
    · subst u
      exact hmade
    · exact h.made hu

/-- A timer may be taken out of the queue that holds it. -/
theorem dequeue (h : w.Sound) (hwaits : w.queueOf? s t = some kind) :
    (w.dequeue s t kind).Sound := by
  obtain ⟨-, trigger, hmem⟩ := (queueOf?_eq_some_iff w s t kind).mp hwaits
  have hleft : ∀ {s' kind' u trigger'}, (u, trigger') ∈ (w.dequeue s t kind).waiting s' kind' →
      (u, trigger') ∈ w.waiting s' kind' ∧ t ≠ u := by
    intro s' kind' u trigger' hu
    obtain ⟨hold, hnot⟩ := (mem_waiting_dequeue (h.nodup s kind)).mp hu
    refine ⟨hold, ?_⟩
    rintro rfl
    obtain ⟨rfl, rfl, -⟩ := h.eq_of_mem_waiting hmem hold
    exact hnot ⟨rfl, rfl, rfl⟩
  have hrow : ∀ {u}, t ≠ u → (w.dequeue s t kind).timer u = w.timer u := by
    intro u hne
    rw [timer_dequeue, if_neg hne]
  have hout : ((w.dequeue s t kind).timer t).queued = none := by
    rw [timer_dequeue, if_pos rfl]
  constructor
  · intro s'
    rw [scheduler_dequeue]
    split
    · exact (h.ordered s).dequeue t kind
    · exact h.ordered s'
  · intro s' kind'
    exact (h.nodup s' kind').sublist (waiting_dequeue_sublist.map Prod.fst)
  · intro s' kind' u trigger' hu
    obtain ⟨hold, hne⟩ := hleft hu
    rw [hrow hne]
    exact h.entry hold
  · intro s₁ s₂ kind' u trigger₁ trigger₂ hu hu'
    exact h.unique (hleft hu).1 (hleft hu').1
  · intro u kind' hu
    have hne : t ≠ u := by
      rintro rfl
      rw [hout] at hu
      cases hu
    rw [hrow hne] at hu
    obtain ⟨s', trigger', hold⟩ := h.queued hu
    refine ⟨s', trigger', (mem_waiting_dequeue (h.nodup s kind)).mpr ⟨hold, ?_⟩⟩
    rintro ⟨-, -, he⟩
    exact hne he.symm
  · intro u hu
    have hne : t ≠ u := by
      rintro rfl
      exact hu hout
    rw [hrow hne] at hu ⊢
    exact h.callback hu
  · intro u hu
    have hne : t ≠ u := by
      rintro rfl
      exact hu hout
    rw [hrow hne] at hu
    exact h.made hu

/-- A new timer is in no queue. -/
theorem create (h : w.Sound) {r : Timer} (hqueued : r.queued = none) : (w.create r).2.Sound := by
  have hnew : (w.timer ⟨w.created⟩).queued = none := by
    by_contra hne
    have hmade := h.made hne
    simp [World.made] at hmade
  have hset : (w.setTimer ⟨w.created⟩ r).Sound :=
    h.setTimer (hqueued.trans hnew.symm) (fun hne => absurd hqueued hne)
  constructor
  · exact hset.ordered
  · exact hset.nodup
  · exact hset.entry
  · exact hset.unique
  · exact hset.queued
  · exact hset.callback
  · intro t ht
    have hmade := hset.made ht
    simp only [World.made, decide_eq_true_eq] at hmade ⊢
    exact Nat.lt_succ_of_lt hmade

end Sound
end Timekeeping.World
