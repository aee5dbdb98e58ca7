import Timekeeping.Proofs.State.Removals
import Timekeeping.Proofs.State.Frames

/-!
Cancelling timers one after another. Each timer that waits in the scheduler leaves its queue,
and the rest stays in its order. In which order the timers are cancelled makes no difference,
not even for the tables in which the rows are kept.
-/
namespace Timekeeping

namespace Table

variable {κ α : Type} [DecidableEq κ]

theorem setRow_setRow (k : κ) (a b : α) (rows : List (κ × α)) :
    setRow k b (setRow k a rows) = setRow k b rows := by
  induction rows with
  | nil => simp [setRow]
  | cons row rest ih =>
    obtain ⟨k', c⟩ := row
    by_cases h : k' = k
    · simp [setRow, h]
    · simp [setRow, h, ih]

/-- Of a key that is set twice the second value stays. -/
theorem set_set (t : Table κ α) (k : κ) (a b : α) : (t.set k a).set k b = t.set k b :=
  congrArg Table.mk (setRow_setRow k a b t.rows)

variable [Inhabited α]

theorem setRow_comm {k j : κ} (hne : k ≠ j) (a b : α) {rows : List (κ × α)}
    (hk : getRow k rows ≠ default) :
    setRow j b (setRow k a rows) = setRow k a (setRow j b rows) := by
  induction rows with
  | nil => exact absurd rfl hk
  | cons row rest ih =>
    obtain ⟨k', c⟩ := row
    -- The row is the first key's, the second key's, or both keys come later.
    by_cases h : k' = k
    · subst h
      simp [setRow, hne]
    · by_cases h' : k' = j
      · subst h'
        simp [setRow, h]
      · have hrest : getRow k rest ≠ default := by simpa [getRow, h] using hk
        simp [setRow, h, h', ih hrest]

/-- Two keys may be set in either order if one of them has a row already. -/
theorem set_comm (t : Table κ α) {k j : κ} (hne : k ≠ j) (hk : t.get k ≠ default) (a b : α) :
    (t.set k a).set j b = (t.set j b).set k a :=
  congrArg Table.mk (setRow_comm hne a b hk)

end Table

namespace Queue

variable {κ : Type}

theorem contains_remove_of_ne {q : Queue κ TimerId} {t u : TimerId} (h : t ≠ u) :
    (q.remove t).contains u = q.contains u := by
  rw [Bool.eq_iff_iff, contains_iff, contains_iff]
  have hmem : ∀ e : Entry κ TimerId, e.item = u → (e ∈ (q.remove t).entries ↔ e ∈ q.entries) := by
    rintro e rfl
    exact List.mem_eraseP_of_neg (by simpa using Ne.symm h)
  constructor
  · rintro ⟨e, he, hitem⟩
    exact ⟨e, (hmem e hitem).mp he, hitem⟩
  · rintro ⟨e, he, hitem⟩
    exact ⟨e, (hmem e hitem).mpr he, hitem⟩

theorem remove_comm (q : Queue κ TimerId) {t u : TimerId} (h : t ≠ u) :
    (q.remove t).remove u = (q.remove u).remove t := by
  refine congrArg Queue.mk (List.eraseP_comm fun e _ => ?_)
  by_cases he : e.item = t
  · exact Or.inr (by simpa [he] using h)
  · exact Or.inl (by simpa using he)

theorem mem_items_of_contains {q : Queue κ TimerId} {t : TimerId} (h : q.contains t = true) :
    t ∈ q.items := by
  obtain ⟨e, he, rfl⟩ := (contains_iff q t).mp h
  exact List.mem_map_of_mem he

theorem filter_of_not_mem {q : Queue κ TimerId} {t : TimerId} (h : t ∉ q.items) :
    q.entries.filter (fun e => !decide (e.item = t)) = q.entries := by
  refine List.filter_eq_self.mpr fun e he => ?_
  have hne : ¬ e.item = t := fun heq => h (heq ▸ List.mem_map_of_mem he)
  simpa using hne

/-- Where every item is queued once, removing one keeps just the entries of all others. -/
theorem remove_of_nodup {q : Queue κ TimerId} (h : q.items.Nodup) (t : TimerId) :
    q.remove t = ⟨q.entries.filter fun e => !decide (e.item = t)⟩ := by
  obtain ⟨entries⟩ := q
  change (entries.map Entry.item).Nodup at h
  refine congrArg Queue.mk ?_
  change entries.eraseP _ = entries.filter _
  induction entries with
  | nil => rfl
  | cons e rest ih =>
    obtain ⟨hfresh, hrest⟩ := List.nodup_cons.mp h
    by_cases he : e.item = t
    · subst he
      have hothers : rest.filter (fun e' => !decide (e'.item = e.item)) = rest :=
        filter_of_not_mem (q := ⟨rest⟩) hfresh
      rw [List.eraseP_cons_of_pos (by simp), List.filter_cons_of_neg (by simp), hothers]
    · rw [List.eraseP_cons_of_neg (by simpa using he), List.filter_cons_of_pos (by simpa using he),
        ih hrest]

end Queue

namespace Scheduler

/-- The scheduler without certain timers in its queues. -/
def without (S : Scheduler) (p : TimerId → Bool) : Scheduler :=
  { S with
    active := ⟨S.active.entries.filter fun e => !p e.item⟩
    idle := ⟨S.idle.entries.filter fun e => !p e.item⟩ }

variable {S : Scheduler} {p p' : TimerId → Bool} {t u : TimerId} {kind kind' : QueueKind}

theorem without_congr (h : ∀ t ∈ S.items, p t = p' t) : S.without p = S.without p' := by
  have hactive : ∀ e ∈ S.active.entries, p e.item = p' e.item := fun e he =>
    h _ (List.mem_append_left _ (List.mem_map_of_mem he))
  have hidle : ∀ e ∈ S.idle.entries, p e.item = p' e.item := fun e he =>
    h _ (List.mem_append_right _ (List.mem_map_of_mem he))
  unfold without
  rw [List.filter_congr fun e he => congrArg not (hactive e he),
    List.filter_congr fun e he => congrArg not (hidle e he)]

theorem without_false (S : Scheduler) : S.without (fun _ => false) = S := by
  simp [without]

theorem without_without (S : Scheduler) (p p' : TimerId → Bool) :
    (S.without p).without p' = S.without fun t => p t || p' t := by
  simp [without, List.filter_filter, Bool.and_comm]

theorem mem_items_without : t ∈ (S.without p).items ↔ t ∈ S.items ∧ p t = false := by
  simp only [items, Queue.items, without, List.mem_append, List.mem_map, List.mem_filter,
    Bool.not_eq_true']
  constructor
  · rintro (⟨e, ⟨he, hp⟩, rfl⟩ | ⟨e, ⟨he, hp⟩, rfl⟩)
    · exact ⟨Or.inl ⟨e, he, rfl⟩, hp⟩
    · exact ⟨Or.inr ⟨e, he, rfl⟩, hp⟩
  · rintro ⟨⟨e, he, rfl⟩ | ⟨e, he, rfl⟩, hp⟩
    · exact Or.inl ⟨e, ⟨he, hp⟩, rfl⟩
    · exact Or.inr ⟨e, ⟨he, hp⟩, rfl⟩

theorem contains_dequeue_of_ne (h : t ≠ u) :
    (S.dequeue t kind).contains u kind' = S.contains u kind' := by
  cases kind <;> cases kind' <;> first | rfl | exact Queue.contains_remove_of_ne h

theorem dequeue_comm (h : t ≠ u) :
    (S.dequeue t kind).dequeue u kind' = (S.dequeue u kind').dequeue t kind := by
  cases kind <;> cases kind' <;> simp [dequeue, Queue.remove_comm _ h]

/-- A timer that is in the queues once leaves them when it is taken out of its queue. -/
theorem dequeue_eq_without (hnodup : S.items.Nodup) (h : S.contains t kind = true) :
    S.dequeue t kind = S.without fun u => u = t := by
  obtain ⟨hactive, hidle, hdisjoint⟩ := List.nodup_append.mp hnodup
  cases kind with
  | active =>
    have hout : t ∉ S.idle.items := fun ht =>
      hdisjoint t (Queue.mem_items_of_contains h) t ht rfl
    simp only [dequeue, without, Queue.remove_of_nodup hactive, Queue.filter_of_not_mem hout]
  | idle =>
    have hout : t ∉ S.active.items := fun ht =>
      hdisjoint t ht t (Queue.mem_items_of_contains h) rfl
    simp only [dequeue, without, Queue.remove_of_nodup hidle, Queue.filter_of_not_mem hout]

end Scheduler

namespace World

variable {w : World} {s s' : SchedulerId} {t u : TimerId} {kind kind' : QueueKind}

section Order

theorem queueOf?_dequeue_of_ne (h : t ≠ u) :
    (w.dequeue s t kind).queueOf? s u = w.queueOf? s u := by
  have hcontains : ((w.scheduler s).dequeue t kind).contains u = (w.scheduler s).contains u :=
    funext fun _ => Scheduler.contains_dequeue_of_ne h
  unfold queueOf?
  rw [timer_dequeue, if_neg h, scheduler_dequeue, if_pos rfl, hcontains]

theorem dequeue_eq (w : World) (s : SchedulerId) (t : TimerId) (kind : QueueKind) :
    w.dequeue s t kind = { w with
      timers := w.timers.set t { w.timer t with queued := none }
      schedulers := w.schedulers.set s ((w.scheduler s).dequeue t kind) } := rfl

/-- Two timers may be taken out of their queues in either order. -/
theorem dequeue_comm (h : t ≠ u) (hqueued : (w.timer t).queued ≠ none) :
    (w.dequeue s t kind).dequeue s u kind' = (w.dequeue s u kind').dequeue s t kind := by
  -- The row of a queued timer is there already, so the other one's cannot come before it.
  have hrow : w.timers.get t ≠ default := fun heq => hqueued (congrArg Timer.queued heq)
  rw [dequeue_eq (w.dequeue s t kind), dequeue_eq (w.dequeue s u kind'), timer_dequeue,
    timer_dequeue, if_neg h, if_neg (Ne.symm h), scheduler_dequeue, scheduler_dequeue, if_pos rfl,
    if_pos rfl, Scheduler.dequeue_comm h, dequeue_eq w, dequeue_eq w]
  simp only [Table.set_set, Table.set_comm w.timers h hrow]

/-- Two timers may be cancelled in either order. -/
theorem cancel_comm (w : World) (s : SchedulerId) (t u : TimerId) :
    (w.cancel s t).cancel s u = (w.cancel s u).cancel s t := by
  by_cases h : t = u
  · rw [h]
  have hcancel : ∀ {w : World} {u kind}, w.queueOf? s u = some kind →
      w.cancel s u = w.dequeue s u kind := fun hkind => by simp [cancel, cancel?, hkind]
  have hstays : ∀ {w : World} {u}, w.queueOf? s u = none → w.cancel s u = w := fun hnone => by
    simp [cancel, cancel?, hnone]
  cases ht : w.queueOf? s t with
  | none =>
    cases hu : w.queueOf? s u with
    | none => rw [hstays ht, hstays hu, hstays ht]
    | some kind' =>
      rw [hstays ht, hcancel hu, hstays]
      rw [queueOf?_dequeue_of_ne (Ne.symm h), ht]
  | some kind =>
    have hthen : (w.dequeue s t kind).queueOf? s u = w.queueOf? s u := queueOf?_dequeue_of_ne h
    cases hu : w.queueOf? s u with
    | none => rw [hcancel ht, hstays hu, hcancel ht, hstays (hthen.trans hu)]
    | some kind' =>
      have hqueued : (w.timer t).queued ≠ none := by
        simp [((queueOf?_eq_some_iff w s t kind).mp ht).1]
      have hback : (w.dequeue s u kind').queueOf? s t = some kind :=
        (queueOf?_dequeue_of_ne (Ne.symm h)).trans ht
      rw [hcancel ht, hcancel hu, hcancel (hthen.trans hu), hcancel hback, dequeue_comm h hqueued]

theorem cancelAll_perm {ts us : List TimerId} (h : ts.Perm us) (w : World) (s : SchedulerId) :
    w.cancelAll s ts = w.cancelAll s us :=
  h.foldl_eq' (fun t _ u _ w => cancel_comm w s t u) w

end Order

section Effect

theorem Sound.not_mem_items (h : w.Sound) (hnone : w.queueOf? s t = none) :
    t ∉ (w.scheduler s).items := fun ht => h.mem_items_iff.mp ht hnone

theorem Sound.scheduler_cancel (h : w.Sound) (s : SchedulerId) (t : TimerId) :
    (w.cancel s t).scheduler s = (w.scheduler s).without fun u => u = t := by
  obtain ⟨hnone, heq⟩ | ⟨kind, hkind, heq⟩ := cancel_cases w s t
  · have hout : ∀ u ∈ (w.scheduler s).items, decide (u = t) = false := fun u hu =>
      decide_eq_false fun hut => h.not_mem_items hnone (hut ▸ hu)
    rw [heq, Scheduler.without_congr hout, Scheduler.without_false]
  · rw [heq, scheduler_dequeue, if_pos rfl]
    exact Scheduler.dequeue_eq_without (h.nodup_items s) (Option.filter_eq_some_iff.mp hkind).2

theorem Sound.timer_cancel (h : w.Sound) (s : SchedulerId) (t u : TimerId) :
    (w.cancel s t).timer u = if u = t ∧ u ∈ (w.scheduler s).items then
      { w.timer u with queued := none } else w.timer u := by
  obtain ⟨hnone, heq⟩ | ⟨kind, hkind, heq⟩ := cancel_cases w s t
  · have hout := h.not_mem_items hnone
    rw [heq, if_neg]
    rintro ⟨rfl, hu⟩
    exact hout hu
  · rw [heq, timer_dequeue]
    by_cases hu : t = u
    · subst hu
      rw [if_pos rfl, if_pos ⟨rfl, mem_items_of_queueOf? hkind⟩]
    · rw [if_neg hu, if_neg fun hboth => hu hboth.1.symm]

/-- Timers that are cancelled one after another leave the queues of the scheduler, and all others stay
as they are. -/
theorem Sound.scheduler_cancelAll (h : w.Sound) (s : SchedulerId) (ts : List TimerId) :
    (w.cancelAll s ts).scheduler s = (w.scheduler s).without fun u => u ∈ ts := by
  induction ts generalizing w with
  | nil =>
    have hnone : w.cancelAll s [] = w := rfl
    simp [hnone, Scheduler.without_false]
  | cons t rest ih =>
    change ((w.cancel s t).cancelAll s rest).scheduler s = _
    rw [ih (h.cancel s t), h.scheduler_cancel, Scheduler.without_without]
    exact Scheduler.without_congr fun u _ => by simp

theorem Sound.timer_cancelAll (h : w.Sound) (s : SchedulerId) (ts : List TimerId) (u : TimerId) :
    (w.cancelAll s ts).timer u = if u ∈ ts ∧ u ∈ (w.scheduler s).items then
      { w.timer u with queued := none } else w.timer u := by
  induction ts generalizing w with
  | nil =>
    have hnone : w.cancelAll s [] = w := rfl
    simp [hnone]
  | cons t rest ih =>
    change ((w.cancel s t).cancelAll s rest).timer u = _
    rw [ih (h.cancel s t), h.scheduler_cancel, h.timer_cancel]
    by_cases hu : u = t
    · simp [Scheduler.mem_items_without, hu]
    · simp [Scheduler.mem_items_without, hu]

end Effect

end World

end Timekeeping
