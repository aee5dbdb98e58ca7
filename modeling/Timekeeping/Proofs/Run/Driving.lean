import Timekeeping.Proofs.Run.Reaching

/-!
A loop that drives a scheduler alone, and the stretches in which its passes see the
host idle. Idle timers become live before such a stretch and not in it, and what a
pass of the stretch does, it does there.
-/
namespace Timekeeping

/-- A loop makes all passes over a scheduler. They come to their end, each before the loop begins
another pass, since it is in one pass at a time, and their keys are normal. The loop keeps its memory,
and while it remembers the host as idle, nobody else makes the idle timers of the scheduler live. -/
structure Drives (loop : LoopId) (s : SchedulerId) (journal : List Moment) : Prop where
  own : ∀ m ∈ journal, ∀ pass, m.event.Begins pass s → m.event.sees? loop ≠ none
  serial : ∀ {later m earlier}, journal = later ++ m :: earlier → m.event.sees? loop ≠ none →
    ∀ m' ∈ earlier, ∀ pass, m'.event.Begins pass s → ∀ m'' ∈ later, m''.event.pass? ≠ some pass
  returned : ∀ m ∈ journal, ∀ pass, m.event.Begins pass s → underWay pass journal = none
  normal : ∀ m ∈ journal, ∀ pass, m.event.Begins pass s →
    (Snapshot.ofWorld m.world s m.world.host.idleFor?).Normal
  lasting : ∀ {later m earlier}, journal = later ++ m :: earlier → m.event.Renews loop →
    ∀ m' ∈ earlier, m'.event.sees? loop = none
  rouses : ∀ {later m earlier}, journal = later ++ m :: earlier → m.event.Rouses s →
    recalls loop earlier = false

/-- A longest stretch in which all passes of a loop see the host idle. It reaches from the beginning
of the first of them to that of the next pass of the loop, which sees the host busy. -/
structure IdleBlock (loop : LoopId) (later block earlier : List Moment) : Prop where
  first : ∃ m ∈ block.getLast?, m.event.sees? loop ≠ none
  idle : ∀ m ∈ block, ∀ idleFor ∈ m.event.sees? loop, idleFor.isSome = true
  before : ∀ idleFor ∈ earlier.findSome? fun m => m.event.sees? loop, idleFor = none
  after : ∀ m ∈ later.getLast?, m.event.sees? loop = some none

variable {loop : LoopId} {pass : Nat} {s : SchedulerId} {t : TimerId} {w : World} {r : Run}
  {later block earlier before : List Moment} {m p began arming : Moment}

theorem Moment.exists_picked? (h : m.event.Picks s t) :
    ∃ pass, ∃ k ∈ m.picked? pass, k.timer = t ∧ k.scheduler = s := by
  obtain ⟨e, w⟩ := m
  cases e with
  | picked pass s' t' trigger wait =>
    obtain ⟨rfl, rfl⟩ := Prod.mk.inj (Option.some.inj h)
    exact ⟨pass, _, if_pos rfl, rfl, rfl⟩
  | _ => cases h

theorem Event.Arms.not_picks {e : Event} (h : e.Arms t) : ¬ e.Picks s t := by
  cases e with
  | armed s u kind triggered => exact fun hpicks => nomatch hpicks
  | _ => exact h.elim

theorem Event.Starts.not_picks {e : Event} (h : e.Starts t) : ¬ e.Picks s t := by
  cases e with
  | started s u kind callback call args => exact fun hpicks => nomatch hpicks
  | _ => exact h.elim

theorem Event.Picks.unseen {e : Event} (h : e.Picks s t) : e.sees? loop = none := by
  cases e with
  | picked pass s' t' trigger wait => rfl
  | _ => cases h

theorem Event.Starts.unseen {e : Event} (h : e.Starts t) : e.sees? loop = none := by
  cases e with
  | started s kind callback call args => rfl
  | _ => exact h.elim

theorem Event.Renews.unseen {e : Event} (h : e.Renews loop) : e.sees? loop = none := by
  cases e with
  | pollBegan s => rfl
  | _ => cases h

theorem Event.Rouses.unseen {e : Event} (h : e.Rouses s) : e.sees? loop = none := by
  cases e with
  | idleStarted s => rfl
  | _ => exact h.elim

theorem Event.Reaches.unseen {e : Event} {x : TimerId × Trigger} (h : e.Reaches pass s x) :
    e.sees? loop = none := by
  cases e with
  | passedOver pass' s' entries => rfl
  | picked pass' s' t trigger wait => rfl
  | _ => exact h.elim

theorem Event.Reaches.pass? {e : Event} {x : TimerId × Trigger} (h : e.Reaches pass s x) :
    e.pass? = some pass := by
  cases e with
  | passedOver pass' s' entries => exact congrArg some h.1
  | picked pass' s' t trigger wait => exact congrArg some h.1
  | _ => exact h.elim

/-- What a pass picks is live then, and was due when the pass began. -/
theorem World.RunsTo.exists_began (h : w.RunsTo r) (hp : p ∈ r.journal)
    (hpicks : p.event.Picks s t) : ∃ pass, p.event.pass? = some pass ∧
      ∃ began ∈ r.journal, began.event.Begins pass s ∧ ∃ trigger, p.world.Live (t, trigger) ∧
        (Snapshot.ofWorld began.world s began.world.host.idleFor?).Due trigger := by
  obtain ⟨pass, k, hk, rfl, rfl⟩ := Moment.exists_picked? hpicks
  obtain ⟨s', loop, begun, whole, began, ms, later, hdrained⟩ :=
    h.drained hp (pass?_of_picked? hk)
  have hmem := mem_picks (hdrained.swept.mem_of_picked? hdrained.begins hp hk) hk
  have hobserved := Snapshot.observed_ofWorld began.world s' began.world.host.idleFor?
  obtain ⟨rfl, hmark, hlive, -, hlead⟩ := hdrained.swept.sweeps.choices.of_mem hobserved hmem
  rw [world_of_picked? hk] at hlive
  exact ⟨pass, pass?_of_picked? hk, began, hdrained.mem, hdrained.begins, k.trigger, hlive,
    (Snapshot.due_iff hobserved hmark).mpr hlead⟩

/-- No pass picks a timer while it is not live. -/
theorem World.RunsTo.not_picks_of_dead (h : w.RunsTo r) (hm : m ∈ r.journal)
    (hdead : ∀ trigger, ¬ m.world.Live (t, trigger)) (s : SchedulerId) : ¬ m.event.Picks s t := by
  intro hpicks
  obtain ⟨pass, -, began, -, -, trigger, hlive, -⟩ := h.exists_began hm hpicks
  exact hdead trigger hlive

/-- From its arming on, no pass fires a timer while it is not live. -/
theorem World.RunsTo.unfired (h : w.RunsTo r)
    (hjournal : r.journal = later ++ (m :: earlier ++ arming :: before))
    (harms : arming.event.Arms t)
    (hdead : ∀ m' ∈ m :: earlier, ∀ trigger, ¬ m'.world.Live (t, trigger)) :
    Unfired t m (earlier ++ arming :: before) := by
  have hpicks : ∀ m' ∈ m :: earlier, ∀ s, ¬ m'.event.Picks s t := by
    intro m' hm'
    refine h.not_picks_of_dead ?_ (hdead m' hm')
    rw [hjournal]
    exact List.mem_append_right _ (List.mem_append_left _ hm')
  refine fun s => ⟨hpicks m List.mem_cons_self s, ?_⟩
  rintro ⟨-, p, hp, hpicked⟩
  cases earlier with
  | nil =>
    obtain rfl := Option.some.inj hp
    exact harms.not_picks hpicked
  | cons p' earlier =>
    obtain rfl := Option.some.inj hp
    exact hpicks p' (by simp) s hpicked

/-- Nothing that a pass does comes before its beginning. -/
theorem World.RunsTo.pass?_ne_of_before (h : w.RunsTo r)
    (hjournal : r.journal = later ++ began :: earlier) (hbegins : began.event.Begins pass s)
    (hm : m ∈ earlier) : m.event.pass? ≠ some pass := by
  obtain ⟨loop', begun, whole, ms, later', hdrained⟩ :=
    h.drained_of_begins (by simp [hjournal]) hbegins
  obtain ⟨-, heq⟩ := hdrained.swept.split_eq hjournal hbegins
  exact hdrained.swept.before m (heq ▸ hm)

/-- The loop sees the host as it is. -/
theorem Drives.sees (hdrives : Drives loop s r.journal) (h : w.RunsTo r) (hbegan : began ∈ r.journal)
    (hbegins : began.event.Begins pass s) :
    began.event.sees? loop = some began.world.host.idleFor? := by
  obtain ⟨loop', begun, whole, ms, later, hdrained⟩ := h.drained_of_begins hbegan hbegins
  obtain ⟨idleFor, hsees⟩ := Option.ne_none_iff_exists'.mp (hdrives.own began hbegan pass hbegins)
  obtain ⟨-, rfl⟩ := Event.sees?_unique hsees hdrained.sees
  exact hsees

/-- A loop that saw the host busy in its last pass, or made none, does not remember it as idle. -/
theorem recalls_of_findSome?
    (h : ∀ idleFor ∈ earlier.findSome? fun m => m.event.sees? loop, idleFor = none) :
    recalls loop earlier = false := by
  by_contra hrecalls
  rw [Bool.not_eq_false, recalls_eq_true_iff] at hrecalls
  obtain ⟨later, m, old, idleFor, rfl, hsees, hlater⟩ := hrecalls
  have hnone : later.findSome? (fun m => m.event.sees? loop) = none :=
    List.findSome?_eq_none_iff.mpr fun m hm => (hlater m hm).1
  have hbusy := h (some idleFor) (by simp [hnone, hsees])
  cases hbusy

/-- What the loop does not see in the stretch comes after a moment at which it saw the host. -/
theorem IdleBlock.split_of_unseen (hblock : IdleBlock loop later block earlier) (hm : m ∈ block)
    (hunseen : m.event.sees? loop = none) : ∃ l₁ l₂ b, block = l₁ ++ m :: (l₂ ++ [b]) ∧
      b.event.sees? loop ≠ none := by
  obtain ⟨b, hb, hsees⟩ := hblock.first
  obtain ⟨rest, rfl⟩ := List.getLast?_eq_some_iff.mp hb
  rcases List.mem_append.mp hm with hm | hm
  · obtain ⟨l₁, l₂, rfl⟩ := List.append_of_mem hm
    exact ⟨l₁, l₂, b, by simp, hsees⟩
  · obtain rfl := List.mem_singleton.mp hm
    exact absurd hunseen hsees

section Block

variable (hdrives : Drives loop s r.journal) (hsplit : r.journal = later ++ (block ++ earlier))
  (hblock : IdleBlock loop later block earlier)

include hdrives hsplit hblock

theorem IdleBlock.not_renews (hm : m ∈ block) : ¬ m.event.Renews loop := by
  intro hrenews
  obtain ⟨l₁, l₂, b, rfl, hsees⟩ := hblock.split_of_unseen hm hrenews.unseen
  have hjournal : r.journal = (later ++ l₁) ++ m :: (l₂ ++ b :: earlier) := by
    rw [hsplit]
    simp
  exact hsees (hdrives.lasting hjournal hrenews b (by simp))

/-- In the stretch the loop remembers the host as idle, so no idle start is in it. -/
theorem IdleBlock.not_rouses (hm : m ∈ block) : ¬ m.event.Rouses s := by
  intro hrouses
  have hrenews := fun m hm => hblock.not_renews hdrives hsplit (m := m) hm
  obtain ⟨l₁, l₂, b, rfl, hsees⟩ := hblock.split_of_unseen hm hrouses.unseen
  have hjournal : r.journal = (later ++ l₁) ++ m :: ((l₂ ++ [b]) ++ earlier) := by
    rw [hsplit]
    simp
  have hrecalls : recalls loop ((l₂ ++ [b]) ++ earlier) = true :=
    recalls_append_of_idle (fun m hm => hblock.idle m (by simp at hm ⊢; tauto))
      (fun m hm => hrenews m (by simp at hm ⊢; tauto)) (Or.inr ⟨b, by simp, hsees⟩)
  rw [hdrives.rouses hjournal hrouses] at hrecalls
  cases hrecalls

/-- A pass that has moments in the stretch began in it. -/
theorem IdleBlock.began_mem (h : w.RunsTo r) (hp : p ∈ block) (hpass : p.event.pass? = some pass)
    (hunseen : p.event.sees? loop = none) (hbegan : began ∈ r.journal)
    (hbegins : began.event.Begins pass s) : began ∈ block := by
  obtain ⟨l₁, l₂, b, rfl, hsees⟩ := hblock.split_of_unseen hp hunseen
  have hjournal : r.journal = (later ++ (l₁ ++ p :: l₂)) ++ b :: earlier := by
    rw [hsplit]
    simp
  -- A pass from before the stretch would reach over the beginning of its first pass.
  have hearlier : began ∉ earlier := fun hold =>
    hdrives.serial hjournal hsees began hold pass hbegins p (by simp) hpass
  have hlater : began ∉ later := by
    intro hlater
    obtain ⟨l, l', rfl⟩ := List.append_of_mem hlater
    have hbefore : r.journal = l ++ began :: (l' ++ ((l₁ ++ p :: l₂) ++ b :: earlier)) := by
      rw [hjournal]
      simp
    exact h.pass?_ne_of_before hbefore hbegins (by simp) hpass
  rw [hsplit, List.mem_append, List.mem_append] at hbegan
  exact (hbegan.resolve_left hlater).resolve_right hearlier

/-- What a pass that began in the stretch does, it does there. -/
theorem IdleBlock.own_mem (h : w.RunsTo r) (hm : m ∈ r.journal) (hpass : m.event.pass? = some pass)
    (hunseen : m.event.sees? loop = none) (hbegan : began ∈ block)
    (hbegins : began.event.Begins pass s) : m ∉ later ∧ m ∈ block ∧ m ∉ earlier := by
  -- Where the stretch ends the loop begins another pass, so this one is over.
  have hlater : m ∉ later := by
    intro hm
    cases hlast : later.getLast? with
    | none =>
      rw [List.getLast?_eq_none_iff.mp hlast] at hm
      cases hm
    | some b =>
      have hbusy := hblock.after b hlast
      obtain ⟨rest, rfl⟩ := List.getLast?_eq_some_iff.mp hlast
      have hjournal : r.journal = rest ++ b :: (block ++ earlier) := by
        rw [hsplit]
        simp
      rcases List.mem_append.mp hm with hm | hm
      · refine absurd hpass (hdrives.serial hjournal ?_ began (by simp [hbegan]) pass hbegins m hm)
        simp [hbusy]
      · obtain rfl := List.mem_singleton.mp hm
        cases hunseen.symm.trans hbusy
  have hearlier : m ∉ earlier := by
    intro hm
    obtain ⟨l₁, l₂, rfl⟩ := List.append_of_mem hbegan
    have hjournal : r.journal = (later ++ l₁) ++ began :: (l₂ ++ earlier) := by
      rw [hsplit]
      simp
    exact h.pass?_ne_of_before hjournal hbegins (by simp [hm]) hpass
  rw [hsplit, List.mem_append, List.mem_append] at hm
  exact ⟨hlater, (hm.resolve_left hlater).resolve_right hearlier, hearlier⟩

omit hdrives in
/-- What follows on a moment of the stretch is in it too, unless the loop sees the host busy then. -/
theorem IdleBlock.next_mem {ms ms' : List Moment} {here : Moment}
    (hjournal : r.journal = (ms ++ [m]) ++ here :: ms') (hlater : here ∉ later)
    (hearlier : here ∉ earlier) (hunseen : m.event.sees? loop = none) : m ∈ block := by
  rw [List.append_assoc, List.singleton_append] at hjournal
  rcases append_eq_append_cons (hsplit.symm.trans hjournal) with ⟨l, hl, hrest⟩ | ⟨l, hl⟩
  · cases l with
    | nil =>
      have hbusy := hblock.after m (by simp [hl])
      cases hunseen.symm.trans hbusy
    | cons x l =>
      obtain ⟨rfl, -⟩ := List.cons_eq_cons.mp hrest
      exact absurd (by simp [hl]) hlater
  · rcases append_eq_append_cons hl with ⟨l', hl', -⟩ | ⟨l', hl'⟩
    · simp [hl']
    · exact absurd (by simp [hl']) hearlier

end Block

end Timekeeping
