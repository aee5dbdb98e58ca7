import Timekeeping.Proofs.State.Changes

/-!
How timers leave their queues, by being cancelled or by being fired, and what
becomes of their rows when a firing ends or an idle period begins.
-/
namespace Timekeeping.World

variable {w w' : World} {s s' : SchedulerId} {t u : TimerId} {kind : QueueKind} {trigger : Trigger}

theorem Sound.queueOf?_eq (h : w.Sound) (ht : (t, trigger) ∈ w.waiting s kind) :
    w.queueOf? s t = some kind :=
  (queueOf?_eq_some_iff w s t kind).mpr ⟨(h.entry ht).1, trigger, ht⟩

theorem mem_items_of_queueOf? (h : w.queueOf? s t = some kind) : t ∈ (w.scheduler s).items := by
  obtain ⟨-, trigger, hmem⟩ := (queueOf?_eq_some_iff w s t kind).mp h
  exact mem_items.mpr ⟨kind, trigger, hmem⟩

/-- A timer is found in a scheduler just if it waits there. -/
theorem Sound.mem_items_iff (h : w.Sound) :
    t ∈ (w.scheduler s).items ↔ w.queueOf? s t ≠ none := by
  rw [Option.ne_none_iff_exists']
  constructor
  · intro ht
    obtain ⟨kind, trigger, hmem⟩ := mem_items.mp ht
    exact ⟨kind, h.queueOf?_eq hmem⟩
  · rintro ⟨kind, hkind⟩
    exact mem_items_of_queueOf? hkind

section Cancelling

theorem cancel_cases (w : World) (s : SchedulerId) (t : TimerId) :
    w.queueOf? s t = none ∧ w.cancel s t = w ∨
      ∃ kind, w.queueOf? s t = some kind ∧ w.cancel s t = w.dequeue s t kind := by
  unfold cancel cancel?
  cases w.queueOf? s t with
  | none => exact Or.inl ⟨rfl, rfl⟩
  | some kind => exact Or.inr ⟨kind, rfl, rfl⟩

theorem Sound.cancel (h : w.Sound) (s : SchedulerId) (t : TimerId) : (w.cancel s t).Sound := by
  obtain ⟨-, heq⟩ | ⟨kind, hkind, heq⟩ := cancel_cases w s t
  · rw [heq]
    exact h
  · rw [heq]
    exact h.dequeue hkind

theorem Unchanged.cancel (hne : t ≠ u) : Unchanged w (w.cancel s t) u := by
  obtain ⟨-, heq⟩ | ⟨kind, -, heq⟩ := cancel_cases w s t
  · rw [heq]
    exact .refl w u
  · rw [heq]
    exact .dequeue hne

theorem queued_cancel_of_none (h : (w.timer u).queued = none) :
    ((w.cancel s t).timer u).queued = none := by
  obtain ⟨-, heq⟩ | ⟨kind, -, heq⟩ := cancel_cases w s t
  · rw [heq]
    exact h
  · rw [heq, timer_dequeue]
    split
    · rfl
    · exact h

theorem queued_cancel (hkind : w.queueOf? s t = some kind) :
    ((w.cancel s t).timer t).queued = none := by
  obtain ⟨hnone, -⟩ | ⟨kind', -, heq⟩ := cancel_cases w s t
  · rw [hkind] at hnone
    cases hnone
  · rw [heq, timer_dequeue, if_pos rfl]

theorem Sound.cancelAll (h : w.Sound) (s : SchedulerId) (ts : List TimerId) :
    (w.cancelAll s ts).Sound := by
  induction ts generalizing w with
  | nil => exact h
  | cons t rest ih => exact ih (h.cancel s t)

theorem Unchanged.cancelAll {ts : List TimerId} (hne : u ∉ ts) :
    Unchanged w (w.cancelAll s ts) u := by
  induction ts generalizing w with
  | nil => exact .refl w u
  | cons t rest ih =>
    have hhead : t ≠ u := fun he => hne (he ▸ List.mem_cons_self)
    exact (Unchanged.cancel hhead).trans (ih fun hu => hne (List.mem_cons_of_mem t hu))

theorem queued_cancelAll_of_none {ts : List TimerId} (h : (w.timer u).queued = none) :
    ((w.cancelAll s ts).timer u).queued = none := by
  induction ts generalizing w with
  | nil => exact h
  | cons t rest ih => exact ih (queued_cancel_of_none h)

/-- Each of the timers that are cancelled together leaves its queue. -/
theorem queued_cancelAll {ts : List TimerId} (h : w.Sound) (ht : t ∈ ts)
    (hmem : (t, trigger) ∈ w.waiting s kind) : ((w.cancelAll s ts).timer t).queued = none := by
  induction ts generalizing w with
  | nil => cases ht
  | cons u rest ih =>
    by_cases hu : u = t
    · subst hu
      have hout : ((w.cancel s u).timer u).queued = none := queued_cancel (h.queueOf?_eq hmem)
      exact queued_cancelAll_of_none (w := w.cancel s u) hout
    · have hrest : t ∈ rest := (List.mem_cons.mp ht).resolve_left (Ne.symm hu)
      exact ih (h.cancel s u) hrest (((Unchanged.cancel hu).waiting s kind trigger).mpr hmem)

theorem exists_waiting_of_mem_matching {callback : Callback} (h : t ∈ w.matching s callback) :
    ∃ kind trigger, (t, trigger) ∈ w.waiting s kind := by
  obtain ⟨hmem, -⟩ := List.mem_filter.mp h
  rcases List.mem_append.mp hmem with hmem | hmem
  · obtain ⟨e, he, rfl⟩ := List.mem_map.mp hmem
    exact ⟨.active, .onClock e.key, List.mem_map.mpr ⟨e, he, rfl⟩⟩
  · obtain ⟨e, he, rfl⟩ := List.mem_map.mp hmem
    exact ⟨.idle, .afterIdle e.key, List.mem_map.mpr ⟨e, he, rfl⟩⟩

end Cancelling

section Firing

/-- The world in which a timer that is fired has left its queue and come back if it repeats. -/
def withdraw (w : World) (s : SchedulerId) (t : TimerId) (kind : QueueKind) : World :=
  let left := w.dequeue s t kind
  (left.setTimer t { left.timer t with triggered := true }).requeue s t (w.timer t)

theorem requeue_cases (w : World) (s : SchedulerId) (t : TimerId) (r : Timer) :
    w.requeue s t r = w ∨ ∃ next, w.requeue s t r =
      (w.setTimer t { w.timer t with trigger := some next }).enqueue s t next true := by
  unfold requeue
  split
  · exact Or.inr ⟨_, rfl⟩
  · exact Or.inl rfl

theorem Sound.requeue (h : w.Sound) (hqueued : (w.timer t).queued = none)
    (hcallback : (w.timer t).callback ≠ none) (hmade : w.made t = true) (r : Timer) :
    (w.requeue s t r).Sound := by
  obtain heq | ⟨next, heq⟩ := requeue_cases w s t r
  · rw [heq]
    exact h
  · have hset : (w.setTimer t { w.timer t with trigger := some next }).Sound :=
      h.setTimer rfl (fun hne => absurd hqueued hne)
    have harmable :
        ((w.setTimer t { w.timer t with trigger := some next }).timer t).Armable next := by
      rw [timer_setTimer, if_pos rfl]
      exact ⟨hqueued, rfl, hcallback⟩
    rw [heq]
    exact hset.enqueue_of_armable harmable hmade

theorem Unchanged.requeue (hne : t ≠ u) (r : Timer) : Unchanged w (w.requeue s t r) u := by
  obtain heq | ⟨next, heq⟩ := requeue_cases w s t r
  · rw [heq]
    exact .refl w u
  · rw [heq]
    exact (Unchanged.setTimer hne _).trans (.enqueue hne true)

theorem Sound.withdraw (h : w.Sound) (hkind : w.queueOf? s t = some kind) :
    (w.withdraw s t kind).Sound := by
  have hqueued : (w.timer t).queued ≠ none := by
    simp [((queueOf?_eq_some_iff w s t kind).mp hkind).1]
  have hrow : (w.dequeue s t kind).timer t = { w.timer t with queued := none } := by
    rw [timer_dequeue, if_pos rfl]
  have hset : ((w.dequeue s t kind).setTimer t
      { (w.dequeue s t kind).timer t with triggered := true }).Sound := by
    refine (h.dequeue hkind).setTimer rfl (fun hne => ?_)
    rw [hrow] at hne
    exact absurd rfl hne
  refine hset.requeue ?_ ?_ (h.made hqueued) _
  · rw [timer_setTimer, if_pos rfl, hrow]
  · rw [timer_setTimer, if_pos rfl, hrow]
    exact h.callback hqueued

theorem Unchanged.withdraw (hne : t ≠ u) : Unchanged w (w.withdraw s t kind) u :=
  ((Unchanged.dequeue hne).trans (.setTimer hne _)).trans (.requeue hne _)

theorem take_eq_absent_iff : w.take s t = .absent ↔ w.queueOf? s t = none := by
  unfold take
  cases hkind : w.queueOf? s t with
  | none => simp
  | some kind =>
    cases hcallback : (w.timer t).callback with
    | none => simp [hcallback]
    | some callback => simp [hcallback]

theorem take_eq_idle (h : w.take s t = .idle w') :
    ∃ kind, w.queueOf? s t = some kind ∧ (w.timer t).callback = none ∧
      w' = w.withdraw s t kind := by
  unfold take at h
  cases hkind : w.queueOf? s t with
  | none => simp [hkind] at h
  | some kind =>
    cases hcallback : (w.timer t).callback with
    | none =>
      simp only [hkind, hcallback, Taken.idle.injEq] at h
      exact ⟨kind, rfl, rfl, h.symm⟩
    | some callback => simp [hkind, hcallback] at h

/-- What starting a timer finds in the world `w` and leaves in the world `w'`. -/
structure Begun (w : World) (s : SchedulerId) (t : TimerId) (start : Started) (w' : World) : Prop where
  queue : w.queueOf? s t = some start.kind
  callback : (w.timer t).callback = some start.callback
  args : start.args = (w.timer t).args
  again : start.again = ((w.timer t).interval.isSome &&
    ((w.timer t).trigger.map Trigger.kind) = some .active)
  context : start.context = ((w.withdraw s t start.kind).scheduler s).context
  world : w' = (w.withdraw s t start.kind).setScheduler s
    { (w.withdraw s t start.kind).scheduler s with
      history := ((w.withdraw s t start.kind).scheduler s).history.record
        ⟨t.number, start.callback.name, start.kind, (w.withdraw s t start.kind).host.now⟩ }

theorem begun_of_take {start : Started} (h : w.take s t = .started start w') :
    w.Begun s t start w' := by
  unfold take at h
  cases hkind : w.queueOf? s t with
  | none => simp [hkind] at h
  | some kind =>
    cases hcallback : (w.timer t).callback with
    | none => simp [hkind, hcallback] at h
    | some callback =>
      simp only [hkind, hcallback, Taken.started.injEq] at h
      obtain ⟨rfl, rfl⟩ := h
      exact ⟨hkind, hcallback, rfl, rfl, rfl, rfl⟩

theorem take_eq_started {start : Started} (h : w.take s t = .started start w') :
    ∃ kind S, w.queueOf? s t = some kind ∧ (w.timer t).callback = some start.callback ∧
      S.active = ((w.withdraw s t kind).scheduler s).active ∧
      S.idle = ((w.withdraw s t kind).scheduler s).idle ∧
      w' = (w.withdraw s t kind).setScheduler s S := by
  have hbegun := begun_of_take h
  refine ⟨start.kind, _, hbegun.queue, hbegun.callback, ?_, ?_, hbegun.world⟩
  · rfl
  · rfl

/-- A timer that waits can be started. -/
theorem Sound.exists_take_eq_started (h : w.Sound) (ht : (t, trigger) ∈ w.waiting s kind) :
    ∃ start w', w.take s t = .started start w' := by
  have hcallback : (w.timer t).callback ≠ none :=
    h.callback (by rw [(h.entry ht).1]; exact Option.some_ne_none kind)
  cases htake : w.take s t with
  | absent =>
    rw [take_eq_absent_iff, h.queueOf?_eq ht] at htake
    cases htake
  | idle w' =>
    obtain ⟨-, -, hnone, -⟩ := take_eq_idle htake
    exact absurd hnone hcallback
  | started start w' => exact ⟨start, w', rfl⟩

theorem settle_cases (w : World) (s : SchedulerId) (t : TimerId) (start : Started) :
    let w₁ := w.setScheduler s { w.scheduler s with context := start.context }
    w.settle s t start = w₁ ∨
      w.settle s t start = w₁.setTimer t { w₁.timer t with triggered := false } := by
  unfold settle
  dsimp only
  split
  · exact Or.inr rfl
  · exact Or.inl rfl

theorem Sound.settle (h : w.Sound) (s : SchedulerId) (t : TimerId) (start : Started) :
    (w.settle s t start).Sound := by
  have hcontext : (w.setScheduler s { w.scheduler s with context := start.context }).Sound :=
    h.setScheduler rfl rfl
  obtain heq | heq := settle_cases w s t start
  · rw [heq]
    exact hcontext
  · rw [heq]
    exact hcontext.setTimer rfl (fun hne => ⟨rfl, hcontext.callback hne⟩)

theorem waiting_settle (w : World) (s s' : SchedulerId) (t : TimerId) (kind : QueueKind)
    (start : Started) : (w.settle s t start).waiting s' kind = w.waiting s' kind := by
  have hcontext :
      (w.setScheduler s { w.scheduler s with context := start.context }).waiting s' kind =
        w.waiting s' kind := by
    rw [waiting_setScheduler]
    · rfl
    · rfl
  obtain heq | heq := settle_cases w s t start
  · rw [heq, hcontext]
  · rw [heq, waiting_setTimer, hcontext]

theorem timer_settle_of_ne (hne : t ≠ u) (start : Started) :
    (w.settle s t start).timer u = w.timer u := by
  obtain heq | heq := settle_cases w s t start
  · rw [heq, timer_setScheduler]
  · rw [heq, timer_setTimer, if_neg hne, timer_setScheduler]

/-- The end of a firing makes its timer live or leaves the row as it is. -/
theorem timer_settle (w : World) (s : SchedulerId) (t : TimerId) (start : Started) :
    (w.settle s t start).timer t = w.timer t ∨
      (w.settle s t start).timer t = { w.timer t with triggered := false } := by
  obtain heq | heq := settle_cases w s t start
  · exact Or.inl (by rw [heq, timer_setScheduler])
  · exact Or.inr (by rw [heq, timer_setTimer, if_pos rfl, timer_setScheduler])

end Firing

section IdlePeriods

/-- Makes timers live. -/
def rouse (w : World) (ts : List TimerId) : World :=
  ts.foldl (fun w t => w.setTimer t { w.timer t with triggered := false }) w

theorem startIdle_eq (w : World) (s : SchedulerId) :
    w.startIdle s = w.rouse ((w.scheduler s).idle.items) := rfl

theorem Sound.rouse (h : w.Sound) (ts : List TimerId) : (w.rouse ts).Sound := by
  induction ts generalizing w with
  | nil => exact h
  | cons t rest ih => exact ih (h.setTimer rfl (fun hne => ⟨rfl, h.callback hne⟩))

theorem waiting_rouse (w : World) (ts : List TimerId) (s : SchedulerId) (kind : QueueKind) :
    (w.rouse ts).waiting s kind = w.waiting s kind := by
  induction ts generalizing w with
  | nil => rfl
  | cons t rest ih => exact ih _

theorem timer_rouse (w : World) (ts : List TimerId) (u : TimerId) :
    (w.rouse ts).timer u = if u ∈ ts then { w.timer u with triggered := false } else w.timer u := by
  induction ts generalizing w with
  | nil => simp [rouse]
  | cons t rest ih =>
    change ((w.setTimer t { w.timer t with triggered := false }).rouse rest).timer u = _
    rw [ih, timer_setTimer]
    by_cases hu : t = u
    · subst hu
      simp
    · have hu' : ¬ u = t := fun h => hu h.symm
      simp [hu, hu']

end IdlePeriods

end Timekeeping.World
