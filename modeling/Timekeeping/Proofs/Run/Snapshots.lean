import Timekeeping.Run.Pass
import Timekeeping.Proofs.State.Soundness
import Timekeeping.Proofs.Time.Normality

/-!
What a pass does with its snapshot between two firings. It passes over entries
that are not live, and takes the one of the two first live entries that is ahead
of the other. In queues that are in order, that one is ahead of all that remain.
-/
namespace Timekeeping

namespace World

/-- The timer may fire, and its row says that it is queued under the given trigger. -/
def Live (w : World) (x : TimerId × Trigger) : Prop :=
  (w.timer x.1).triggered = false ∧ (w.timer x.1).queued = some x.2.kind ∧
    (w.timer x.1).trigger = some x.2

instance (w : World) (x : TimerId × Trigger) : Decidable (w.Live x) :=
  inferInstanceAs (Decidable (_ ∧ _ ∧ _))

/-- A live timer waits in the scheduler under the given trigger. -/
def Ready (w : World) (s : SchedulerId) (x : TimerId × Trigger) : Prop :=
  (w.timer x.1).triggered = false ∧ x ∈ w.waiting s x.2.kind

instance (w : World) (s : SchedulerId) (x : TimerId × Trigger) : Decidable (w.Ready s x) :=
  inferInstanceAs (Decidable (_ ∧ _))

theorem Ready.live {w : World} {s : SchedulerId} {x : TimerId × Trigger} (h : w.Ready s x)
    (hw : w.Sound) : w.Live x :=
  ⟨h.1, hw.entry h.2⟩

/-- A live timer that waits in the scheduler does so under its trigger. -/
theorem Live.ready {w : World} {s : SchedulerId} {x : TimerId × Trigger} {kind : QueueKind}
    (h : w.Live x) (hw : w.Sound) (hkind : w.queueOf? s x.1 = some kind) : w.Ready s x := by
  obtain ⟨hqueued, trigger, hwaits⟩ := (queueOf?_eq_some_iff _ _ _ _).mp hkind
  have htrigger := (hw.entry hwaits).2
  obtain rfl : kind = x.2.kind := Option.some.inj (hqueued.symm.trans h.2.1)
  obtain rfl : trigger = x.2 := Option.some.inj (htrigger.symm.trans h.2.2)
  exact ⟨h.1, hwaits⟩

theorem liveOnClock_eq (w : World) (e : Entry Instant TimerId) :
    w.liveOnClock e = decide (w.Live (e.item, .onClock e.key)) := by
  rw [Bool.eq_iff_iff, decide_eq_true_iff]
  simp [liveOnClock, Live, Trigger.kind, and_assoc]

theorem liveWhenIdle_eq (w : World) (e : Entry Duration TimerId) :
    w.liveWhenIdle e = decide (w.Live (e.item, .afterIdle e.key)) := by
  rw [Bool.eq_iff_iff, decide_eq_true_iff]
  simp [liveWhenIdle, Live, Trigger.kind, and_assoc]

end World

namespace Snapshot

/-- The timers in what is left of a queue, with the triggers under which they were queued. -/
def marks (p : Snapshot) : QueueKind → List (TimerId × Trigger)
  | .active => p.active.map fun e => (e.item, .onClock e.key)
  | .idle => p.idle.map fun e => (e.item, .afterIdle e.key)

variable {p q : Snapshot} {w : World} {s : SchedulerId} {kind : QueueKind} {next : Pick}
  {x : TimerId × Trigger} {t : TimerId}

theorem kind_of_mem_marks (h : x ∈ p.marks kind) : x.2.kind = kind := by
  cases kind with
  | active =>
    obtain ⟨e, -, rfl⟩ := List.mem_map.mp h
    rfl
  | idle =>
    obtain ⟨e, -, rfl⟩ := List.mem_map.mp h
    rfl

theorem mem_marks_append (h : x ∈ p.marks kind) : x ∈ p.marks .active ++ p.marks .idle := by
  cases kind with
  | active => exact List.mem_append_left _ h
  | idle => exact List.mem_append_right _ h

theorem size_eq (p : Snapshot) : p.size = (p.marks .active).length + (p.marks .idle).length := by
  simp [size, marks]

/-- How many picoseconds a trigger is ahead of the snapshot; zero or less if it is due. -/
def lead (p : Snapshot) : Trigger → Int
  | .onClock time => time.total - p.now.total
  | .afterIdle delay => delay.total - (p.idleFor.getD .zero).total

/-- The wait that a pass computes from the lead. -/
def wait (p : Snapshot) (trigger : Trigger) : Duration := .ofTotal (p.lead trigger)

/-- One trigger goes before another: it is more overdue, or as much and not of the idle queue while
the other is of the active one. -/
def Before (p : Snapshot) (a b : Trigger) : Prop :=
  p.lead a ≤ p.lead b ∧ (p.lead a = p.lead b → a.kind = .idle → b.kind = .idle)

/-- Both queues are in the order of leads. -/
def Sorted (p : Snapshot) : Prop :=
  ∀ kind, (p.marks kind).Pairwise fun a b => p.lead a.2 ≤ p.lead b.2

/-- All leads can be stored, so waits are exact. -/
def Exact (p : Snapshot) : Prop := ∀ kind, ∀ x ∈ p.marks kind, Ticks.Representable (p.lead x.2)

/-- The trigger lies in the past of the snapshot, or the host has been idle for long enough. -/
def Due (p : Snapshot) : Trigger → Prop
  | .onClock time => time.total ≤ p.now.total
  | .afterIdle delay => ∃ idleFor, p.idleFor = some idleFor ∧ delay.total ≤ idleFor.total

/-- The keys of all entries are normal. -/
def Normal (p : Snapshot) : Prop := ∀ x ∈ p.marks .active ++ p.marks .idle, x.2.Normal

instance (p : Snapshot) : Decidable p.Normal :=
  inferInstanceAs (Decidable (∀ x ∈ p.marks .active ++ p.marks .idle, x.2.Normal))

/-- No timer has two entries. -/
def Distinct (p : Snapshot) : Prop := ((p.marks .active ++ p.marks .idle).map Prod.fst).Nodup

/-- Idle timers are looked at only while the host is idle. -/
def Observed (p : Snapshot) : Prop := p.idleFor = none → p.idle = []

/-- What is left of a snapshot when entries have been taken out. -/
structure Within (q p : Snapshot) : Prop where
  now : q.now = p.now
  idleFor : q.idleFor = p.idleFor
  sublist : ∀ kind, (q.marks kind).Sublist (p.marks kind)

theorem Within.trans {o : Snapshot} (h : o.Within q) (h' : q.Within p) : o.Within p :=
  ⟨h.now.trans h'.now, h.idleFor.trans h'.idleFor,
    fun kind => (h.sublist kind).trans (h'.sublist kind)⟩

theorem Within.lead (h : q.Within p) (trigger : Trigger) : q.lead trigger = p.lead trigger := by
  cases trigger with
  | onClock time => simp only [Snapshot.lead, h.now]
  | afterIdle delay => simp only [Snapshot.lead, h.idleFor]

theorem Within.before (h : q.Within p) (a b : Trigger) : q.Before a b ↔ p.Before a b := by
  simp only [Before, h.lead]

theorem Within.pairwise (h : q.Within p)
    (hp : (p.marks kind).Pairwise fun a b => p.lead a.2 ≤ p.lead b.2) :
    (q.marks kind).Pairwise fun a b => q.lead a.2 ≤ q.lead b.2 := by
  simp only [h.lead]
  exact hp.sublist (h.sublist kind)

theorem Within.sorted (h : q.Within p) (hp : p.Sorted) : q.Sorted := fun kind => h.pairwise (hp kind)

theorem Within.exact (h : q.Within p) (hp : p.Exact) : q.Exact := by
  intro kind x hx
  rw [h.lead]
  exact hp kind x ((h.sublist kind).subset hx)

theorem Within.distinct (h : q.Within p) (hp : p.Distinct) : q.Distinct :=
  hp.sublist (((h.sublist .active).append (h.sublist .idle)).map Prod.fst)

theorem Within.size_le (h : q.Within p) : q.size ≤ p.size := by
  have hactive := (h.sublist .active).length_le
  have hidle := (h.sublist .idle).length_le
  rw [size_eq, size_eq]
  omega

theorem Within.observed (h : q.Within p) (hp : p.Observed) : q.Observed := by
  intro hnone
  have hempty : p.marks .idle = [] := by
    simp [marks, hp (h.idleFor.symm.trans hnone)]
  have hsub := h.sublist .idle
  rw [hempty] at hsub
  simpa [marks] using hsub

theorem marks_skip (p : Snapshot) (w : World) (kind : QueueKind) :
    (p.skip w).marks kind = (p.marks kind).dropWhile fun x => !decide (w.Live x) := by
  cases kind with
  | active =>
    simp only [marks, skip, List.dropWhile_map, World.liveOnClock_eq]
    rfl
  | idle =>
    simp only [marks, skip, List.dropWhile_map, World.liveWhenIdle_eq]
    rfl

theorem mem_stale (h : x ∈ (p.marks kind).takeWhile fun x => !decide (w.Live x)) :
    x ∈ p.stale w := by
  simp only [stale, World.liveOnClock_eq, World.liveWhenIdle_eq]
  cases kind with
  | active =>
    rw [marks, List.takeWhile_map] at h
    exact List.mem_append_left _ h
  | idle =>
    rw [marks, List.takeWhile_map] at h
    exact List.mem_append_right _ h

/-- An entry is either passed over, and then it is not live, or left by `skip`. -/
theorem stale_or_mem_skip (w : World) (h : x ∈ p.marks kind) :
    (x ∈ p.stale w ∧ ¬ w.Live x) ∨ x ∈ (p.skip w).marks kind := by
  rw [marks_skip]
  have hsplit := List.takeWhile_append_dropWhile (p := fun x => !decide (w.Live x))
    (l := p.marks kind)
  rw [← hsplit] at h
  rcases List.mem_append.mp h with hpassed | hleft
  · refine Or.inl ⟨mem_stale hpassed, ?_⟩
    simpa using List.mem_takeWhile_imp hpassed
  · exact Or.inr hleft

theorem skip_within (p : Snapshot) (w : World) : (p.skip w).Within p := by
  refine ⟨rfl, rfl, fun kind => ?_⟩
  rw [marks_skip]
  exact List.dropWhile_sublist _

theorem live_of_skip_eq_cons {rest : List (TimerId × Trigger)}
    (h : (p.skip w).marks kind = x :: rest) : w.Live x := by
  have hhead := List.head?_dropWhile_not (fun x => !decide (w.Live x)) (p.marks kind)
  rw [← marks_skip, h] at hhead
  simpa using hhead

/-- The first entry of one queue, and the snapshot without it. -/
structure Heads (q : Snapshot) (kind : QueueKind) (next : Pick) : Prop where
  front : q.marks kind = (next.timer, next.trigger) :: next.rest.marks kind
  other : ∀ kind', kind' ≠ kind → next.rest.marks kind' = q.marks kind'
  wait_eq : next.wait = q.wait next.trigger
  now : next.rest.now = q.now
  idleFor : next.rest.idleFor = q.idleFor

theorem Heads.mem (h : q.Heads kind next) : (next.timer, next.trigger) ∈ q.marks kind := by
  rw [h.front]
  exact List.mem_cons_self

theorem Heads.kind_eq (h : q.Heads kind next) : next.trigger.kind = kind := kind_of_mem_marks h.mem

theorem Heads.within (h : q.Heads kind next) : next.rest.Within q := by
  refine ⟨h.now, h.idleFor, fun kind' => ?_⟩
  by_cases hkind : kind' = kind
  · subst hkind
    rw [h.front]
    exact List.sublist_cons_self _ _
  · rw [h.other kind' hkind]

theorem Heads.wait_head (h : q.Heads kind next) (hx : x ∈ (q.marks kind).head?) :
    q.wait x.2 = next.wait := by
  rw [h.front] at hx
  obtain rfl := Option.some.inj hx
  exact h.wait_eq.symm

theorem heads_of_pickActive? (h : q.pickActive? = some next) : q.Heads .active next := by
  unfold pickActive? at h
  split at h
  · cases h
  · rename_i e rest hactive
    obtain rfl := Option.some.inj h
    refine ⟨by simp [marks, hactive], fun kind' hne => ?_, rfl, rfl, rfl⟩
    cases kind' with
    | active => exact absurd rfl hne
    | idle => rfl

theorem heads_of_pickIdle? (h : q.pickIdle? = some next) : q.Heads .idle next := by
  unfold pickIdle? at h
  split at h
  · rename_i e rest idleFor hidle hfor
    obtain rfl := Option.some.inj h
    refine ⟨by simp [marks, hidle], fun kind' hne => ?_, ?_, rfl, rfl⟩
    · cases kind' with
      | active => rfl
      | idle => exact absurd rfl hne
    · simp only [wait, lead, hfor, Option.getD_some]
      rfl
  · cases h

theorem marks_of_pickActive? (h : q.pickActive? = none) : q.marks .active = [] := by
  unfold pickActive? at h
  split at h
  · rename_i hactive
    simp [marks, hactive]
  · cases h

theorem marks_of_pickIdle? (hq : q.Observed) (h : q.pickIdle? = none) : q.marks .idle = [] := by
  unfold pickIdle? at h
  split at h
  · cases h
  · rename_i hnot
    cases hidle : q.idle with
    | nil => simp [marks, hidle]
    | cons e rest =>
      cases hfor : q.idleFor with
      | none => simp [marks, hq hfor]
      | some idleFor => exact absurd hfor (hnot e rest idleFor hidle)

/-- What is picked is the first entry of its queue and waits no longer than that of the other. An
idle entry is picked only if it waits less. -/
structure Takes (q : Snapshot) (next : Pick) : Prop extends Heads q next.trigger.kind next where
  first : ∀ kind, ∀ x ∈ (q.marks kind).head?, next.wait ≤ q.wait x.2
  tie : next.trigger.kind = .idle → ∀ x ∈ (q.marks .active).head?, next.wait < q.wait x.2

theorem Heads.takes (h : q.Heads kind next)
    (hfirst : ∀ kind', kind' ≠ kind → ∀ x ∈ (q.marks kind').head?, next.wait ≤ q.wait x.2)
    (htie : kind = .idle → ∀ x ∈ (q.marks .active).head?, next.wait < q.wait x.2) :
    q.Takes next := by
  have hkind := h.kind_eq
  subst hkind
  refine ⟨h, fun kind x hx => ?_, htie⟩
  by_cases hkind : kind = next.trigger.kind
  · subst hkind
    rw [h.wait_head hx]
    exact Std.le_refl _
  · exact hfirst kind hkind x hx

theorem takes_of_pick? (hq : q.Observed) (h : q.pick? = some next) : q.Takes next := by
  unfold pick? at h
  split at h
  · rename_i a i ha hi
    have hactive := heads_of_pickActive? ha
    have hidle := heads_of_pickIdle? hi
    split at h
    · rename_i hlt
      obtain rfl := Option.some.inj h
      have hbefore : ∀ x ∈ (q.marks .active).head?, i.wait < q.wait x.2 := by
        intro x hx
        rw [hactive.wait_head hx]
        exact hlt
      refine hidle.takes (fun kind' hne x hx => ?_) (fun _ => hbefore)
      cases kind' with
      | active => exact Duration.le_of_lt (hbefore x hx)
      | idle => exact absurd rfl hne
    · rename_i hnot
      obtain rfl := Option.some.inj h
      refine hactive.takes (fun kind' hne x hx => ?_) (fun hkind => nomatch hkind)
      cases kind' with
      | active => exact absurd rfl hne
      | idle =>
        rw [hidle.wait_head hx]
        exact Duration.not_lt.mp hnot
  · rename_i a ha hi
    obtain rfl := Option.some.inj h
    refine (heads_of_pickActive? ha).takes (fun kind' hne x hx => ?_) (fun hkind => nomatch hkind)
    cases kind' with
    | active => exact absurd rfl hne
    | idle => simp [marks_of_pickIdle? hq hi] at hx
  · rename_i ha
    have hnone := marks_of_pickActive? ha
    refine (heads_of_pickIdle? h).takes (fun kind' hne x hx => ?_) (fun _ x hx => ?_)
    · cases kind' with
      | active => simp [hnone] at hx
      | idle => exact absurd rfl hne
    · simp [hnone] at hx

theorem takes_of_skip (hp : p.Observed) (h : (p.skip w).pick? = some next) :
    (p.skip w).Takes next ∧ next.rest.Within p := by
  have htakes := takes_of_pick? ((p.skip_within w).observed hp) h
  exact ⟨htakes, htakes.toHeads.within.trans (p.skip_within w)⟩

theorem marks_of_pick?_eq_none (hq : q.Observed) (h : q.pick? = none) (kind : QueueKind) :
    q.marks kind = [] := by
  unfold pick? at h
  split at h
  · split at h <;> cases h
  · cases h
  · rename_i ha
    cases kind with
    | active => exact marks_of_pickActive? ha
    | idle => exact marks_of_pickIdle? hq h

theorem exists_head (hsorted : (q.marks kind).Pairwise fun a b => q.lead a.2 ≤ q.lead b.2)
    (hx : x ∈ q.marks kind) :
    ∃ y ∈ (q.marks kind).head?, y ∈ q.marks kind ∧ q.lead y.2 ≤ q.lead x.2 := by
  cases hmarks : q.marks kind with
  | nil =>
    rw [hmarks] at hx
    cases hx
  | cons y rest =>
    rw [hmarks] at hx hsorted
    refine ⟨y, rfl, List.mem_cons_self, ?_⟩
    rcases List.mem_cons.mp hx with rfl | hx
    · exact Int.le_refl _
    · exact (List.pairwise_cons.mp hsorted).1 x hx

theorem Takes.mem_cases (h : q.Takes next) (hx : x ∈ q.marks kind) :
    x = (next.timer, next.trigger) ∨ x ∈ next.rest.marks kind := by
  by_cases hkind : kind = next.trigger.kind
  · subst hkind
    rw [h.front] at hx
    exact List.mem_cons.mp hx
  · rw [h.other kind hkind]
    exact Or.inr hx

/-- What is picked is ahead of all that remain. -/
theorem Takes.before (h : q.Takes next) (hq : q.Sorted) (hexact : q.Exact)
    (hx : x ∈ next.rest.marks kind) : q.Before next.trigger x.2 := by
  have hmem := h.mem
  by_cases hkind : kind = next.trigger.kind
  · subst hkind
    have hsorted := hq next.trigger.kind
    rw [h.front] at hsorted
    refine ⟨(List.pairwise_cons.mp hsorted).1 x hx, fun _ hidle => ?_⟩
    exact (kind_of_mem_marks hx).trans hidle
  · rw [h.other kind hkind] at hx
    obtain ⟨y, hy, hymem, hle⟩ := exists_head (hq kind) hx
    have hfirst := h.first kind y hy
    rw [h.wait_eq] at hfirst
    have hlead : q.lead next.trigger ≤ q.lead y.2 :=
      (Ticks.ofTotal_le_iff (hexact _ _ hmem) (hexact _ _ hymem)).mp hfirst
    refine ⟨Int.le_trans hlead hle, fun heq hidle => ?_⟩
    -- An idle entry that is picked has a smaller lead than the first of the active queue.
    cases kind with
    | idle => exact absurd hidle.symm hkind
    | active =>
      have htie := h.tie hidle y hy
      rw [h.wait_eq] at htie
      have hlt : q.lead next.trigger < q.lead y.2 :=
        (Ticks.ofTotal_lt_iff (hexact _ _ hmem) (hexact _ _ hymem)).mp htie
      omega

/-- If what is picked still has to wait, all others have to. -/
theorem Takes.positive (h : q.Takes next)
    (hsorted : (q.marks kind).Pairwise fun a b => q.lead a.2 ≤ q.lead b.2)
    (hwait : next.wait.IsPositive) (hx : x ∈ q.marks kind) : 0 < q.lead x.2 := by
  obtain ⟨y, hy, -, hle⟩ := exists_head hsorted hx
  have hpositive : (q.wait y.2).IsPositive := hwait.mono (h.first kind y hy)
  exact Int.lt_of_lt_of_le ((Duration.isPositive_ofTotal _).mp hpositive) hle

/-- What does not have to wait is due. -/
theorem Takes.lead_le (h : q.Takes next) (hdue : ¬ next.wait.IsPositive) :
    q.lead next.trigger ≤ 0 := by
  rw [h.wait_eq] at hdue
  exact Int.not_lt.mp fun hlead => hdue ((Duration.isPositive_ofTotal _).mpr hlead)

/-- The timer that is picked has no other entry. -/
theorem Takes.ne_of_mem (h : q.Takes next) (hq : q.Distinct) (hx : x ∈ next.rest.marks kind) :
    x.1 ≠ next.timer := by
  have hin := mem_marks_append hx
  have hperm : (q.marks .active ++ q.marks .idle).Perm
      ((next.timer, next.trigger) :: (next.rest.marks .active ++ next.rest.marks .idle)) := by
    have hfront := h.front
    cases hkind : next.trigger.kind with
    | active =>
      rw [hkind] at hfront
      rw [hfront, h.other .idle (by simp [hkind])]
      exact List.Perm.refl _
    | idle =>
      rw [hkind] at hfront
      rw [hfront, h.other .active (by simp [hkind])]
      exact List.perm_middle
  have hnodup := (hperm.map Prod.fst).nodup_iff.mp hq
  rw [List.map_cons] at hnodup
  have hfst := List.mem_map_of_mem (f := Prod.fst) hin
  intro heq
  rw [heq] at hfst
  exact (List.nodup_cons.mp hnodup).1 hfst

theorem Takes.size (h : q.Takes next) : next.rest.size < q.size := by
  have hlength := congrArg List.length h.front
  rw [List.length_cons] at hlength
  rw [size_eq, size_eq]
  cases hkind : next.trigger.kind with
  | active =>
    rw [hkind] at hlength
    rw [hlength, h.other .idle (by simp [hkind])]
    omega
  | idle =>
    rw [hkind] at hlength
    rw [hlength, h.other .active (by simp [hkind])]
    omega

section OfWorld

variable (w : World) (s : SchedulerId) (idleFor : Option Duration)

theorem marks_ofWorld_sublist (kind : QueueKind) :
    ((ofWorld w s idleFor).marks kind).Sublist (w.waiting s kind) := by
  cases kind with
  | active => exact List.Sublist.refl _
  | idle =>
    cases idleFor with
    | none => exact List.nil_sublist _
    | some idleFor => exact List.Sublist.refl _

theorem mem_marks_ofWorld (hx : x ∈ w.waiting s kind)
    (hdue : (ofWorld w s idleFor).Due x.2) : x ∈ (ofWorld w s idleFor).marks kind := by
  have hkind := Scheduler.kind_of_mem_waiting hx
  cases kind with
  | active => exact hx
  | idle =>
    cases idleFor with
    | some idleFor => exact hx
    | none =>
      obtain ⟨t, trigger⟩ := x
      cases trigger with
      | onClock time => cases hkind
      | afterIdle delay =>
        obtain ⟨_, hnone, -⟩ := hdue
        cases hnone

theorem observed_ofWorld : (ofWorld w s idleFor).Observed := by
  intro hnone
  have hidle : idleFor = none := hnone
  simp [ofWorld, hidle]

theorem size_ofWorld_le :
    (ofWorld w s idleFor).size ≤ (w.scheduler s).active.size + (w.scheduler s).idle.size := by
  have hactive := (marks_ofWorld_sublist w s idleFor .active).length_le
  have hidle := (marks_ofWorld_sublist w s idleFor .idle).length_le
  rw [size_eq]
  simp only [World.waiting, Scheduler.waiting, List.length_map] at hactive hidle
  unfold Queue.size
  omega

theorem distinct_ofWorld (h : w.Sound) : (ofWorld w s idleFor).Distinct := by
  have hitems := h.nodup_items s
  unfold Scheduler.items at hitems
  rw [← World.map_fst_waiting_active, ← World.map_fst_waiting_idle, ← List.map_append] at hitems
  refine hitems.sublist (List.Sublist.map Prod.fst ?_)
  exact (marks_ofWorld_sublist w s idleFor .active).append (marks_ofWorld_sublist w s idleFor .idle)

/-- Queues with normal keys are in the order of leads. -/
theorem pairwise_active_ofWorld (h : w.Sound) (hnormal : ∀ x ∈ w.waiting s .active, x.2.Normal) :
    ((ofWorld w s idleFor).marks .active).Pairwise fun a b =>
      (ofWorld w s idleFor).lead a.2 ≤ (ofWorld w s idleFor).lead b.2 := by
  refine List.pairwise_map.mpr ((h.ordered s).1.imp_of_mem fun {a b} ha _ hle => ?_)
  have htotal := Ticks.total_le_total (hnormal _ (List.mem_map_of_mem ha)) hle
  exact Int.sub_le_sub_right htotal _

theorem sorted_ofWorld (h : w.Sound) (hnormal : (ofWorld w s idleFor).Normal) :
    (ofWorld w s idleFor).Sorted := by
  intro kind
  have hkeys : ∀ x ∈ (ofWorld w s idleFor).marks kind, x.2.Normal :=
    fun x hx => hnormal x (mem_marks_append hx)
  cases kind with
  | active => exact pairwise_active_ofWorld w s idleFor h hkeys
  | idle =>
    cases idleFor with
    | none => exact .nil
    | some idleFor =>
      refine List.pairwise_map.mpr ((h.ordered s).2.imp_of_mem fun {a b} ha _ hle => ?_)
      have htotal := Ticks.total_le_total (hkeys _ (List.mem_map_of_mem ha)) hle
      exact Int.sub_le_sub_right htotal _

end OfWorld

/-- A timer whose normal key the clock or the idle time has reached is due. -/
theorem due_of_le_now {time : Instant} (hnormal : (ofWorld w s w.host.idleFor?).Normal)
    (hx : (t, .onClock time) ∈ w.waiting s .active) (hle : time ≤ w.host.now) :
    (ofWorld w s w.host.idleFor?).Due (.onClock time) := by
  have hmark : (t, .onClock time) ∈ (ofWorld w s w.host.idleFor?).marks .active := hx
  have hkey : Trigger.Normal (.onClock time) := hnormal _ (mem_marks_append hmark)
  exact Ticks.total_le_total hkey hle

theorem due_of_le_idleFor {delay idleFor : Duration}
    (hnormal : (ofWorld w s w.host.idleFor?).Normal)
    (hx : (t, .afterIdle delay) ∈ w.waiting s .idle) (hidle : w.host.idleFor? = some idleFor)
    (hle : delay ≤ idleFor) : (ofWorld w s w.host.idleFor?).Due (.afterIdle delay) := by
  rw [hidle] at hnormal ⊢
  have hmark : (t, .afterIdle delay) ∈ (ofWorld w s (some idleFor)).marks .idle := hx
  have hkey : Trigger.Normal (.afterIdle delay) := hnormal _ (mem_marks_append hmark)
  exact ⟨idleFor, rfl, Ticks.total_le_total hkey hle⟩

/-- What does not have to wait is due, if it is an idle timer only while the host is idle. -/
theorem due_iff (hp : p.Observed) (hx : x ∈ p.marks kind) : p.Due x.2 ↔ p.lead x.2 ≤ 0 := by
  obtain ⟨t, trigger⟩ := x
  cases trigger with
  | onClock time =>
    simp only [Due, lead]
    omega
  | afterIdle delay =>
    have hkind : kind = .idle := (kind_of_mem_marks hx).symm
    subst hkind
    simp only [Due, lead]
    cases hfor : p.idleFor with
    | none => simp [marks, hp hfor] at hx
    | some idleFor =>
      simp only [Option.some.injEq, exists_eq_left', Option.getD_some]
      omega

/-- What is due comes no later than a normal clock in the order of stored values too. -/
theorem Due.le_now {time : Instant} (h : p.Due (.onClock time)) (hnow : p.now.Normal) :
    time ≤ p.now :=
  Ticks.le_of_total_le hnow h

theorem Due.le_idleFor {delay : Duration} (h : p.Due (.afterIdle delay)) {host : Host}
    (hidle : p.idleFor = host.idleFor?) :
    ∃ idleFor, host.idleFor? = some idleFor ∧ delay ≤ idleFor := by
  obtain ⟨idleFor, hfor, hle⟩ := h
  have hhost := hidle.symm.trans hfor
  refine ⟨idleFor, hhost, Ticks.le_of_total_le ?_ hle⟩
  obtain ⟨start, -, rfl⟩ := Option.map_eq_some_iff.mp hhost
  exact Ticks.ofTotal_normal _

end Snapshot
end Timekeeping
