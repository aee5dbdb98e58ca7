import Timekeeping.Proofs.Run.FireCalls

/-!
What a pass leaves in the journal, turn by turn. In each turn it passes over
entries that are not live, picks a timer and fires it; between its own moments
stand those of the firing. Every pass of a run that operations lead to is of this
form, whatever its callbacks do.
-/
namespace Timekeeping

open Act

/-- The moments that the firing of a timer adds. None belongs to the pass that fires it, and if the
timer is started, that comes first. -/
structure Fires (pass : Nat) (s : SchedulerId) (t : TimerId) (w : World) (ms : List Moment)
    (w' : World) : Prop where
  path : w.Path ms w'
  foreign : ∀ m ∈ ms, m.event.pass? ≠ some pass
  starts : ∀ {start w₁}, w.take s t = .started start w₁ →
    ∃ m rest, ms = rest ++ [m] ∧ m.event.Starts t

/-- A turn of a pass: what it picks in the world `w` is due, and is fired. -/
structure Turn (pass : Nat) (s : SchedulerId) (w : World) (p : Snapshot) (next : Snapshot.Pick)
    (fired : List Moment) (w' : World) : Prop where
  pick : (p.skip w).pick? = some next
  due : ¬ next.wait.IsPositive
  fires : Fires pass s next.timer w fired w'

/-- The moments of a turn, the latest first. -/
def turn (pass : Nat) (s : SchedulerId) (w : World) (p : Snapshot) (next : Snapshot.Pick)
    (fired : List Moment) : List Moment :=
  fired ++ [⟨.picked pass s next.timer next.trigger next.wait, w⟩,
    ⟨.passedOver pass s (p.stale w), w⟩]

theorem Turn.path {pass : Nat} {s : SchedulerId} {w w' : World} {p : Snapshot} {next : Snapshot.Pick}
    {fired : List Moment} (h : Turn pass s w p next fired w') :
    w.Path (turn pass s w p next fired) w' := by
  have hpicked : w.Path [⟨.picked pass s next.timer next.trigger next.wait, w⟩,
      ⟨.passedOver pass s (p.stale w), w⟩] w :=
    .cons (.cons .nil (.passedOver pass s _)) (.picked pass s _ _ _)
  exact hpicked.append h.fires.path

/-- The moments of a pass over a snapshot from the world `w` on. The flag says whether it came to
its end; if not, the firing in its last turn was interrupted. -/
inductive Sweeps (pass : Nat) (s : SchedulerId) : Bool → World → Snapshot → List Moment → Prop
  | spent {w : World} {p : Snapshot} (hsize : p.size = 0) : Sweeps pass s true w p []
  | stopped {w : World} {p : Snapshot}
      (hstop : ∀ next, (p.skip w).pick? = some next → next.wait.IsPositive) :
      Sweeps pass s true w p [⟨.passedOver pass s (p.stale w), w⟩]
  | broken {w w' : World} {p : Snapshot} {next : Snapshot.Pick} {fired : List Moment}
      (hturn : Turn pass s w p next fired w') : Sweeps pass s false w p (turn pass s w p next fired)
  | turned {whole : Bool} {w w' : World} {p : Snapshot} {next : Snapshot.Pick}
      {fired rest : List Moment} (hturn : Turn pass s w p next fired w')
      (hrest : Sweeps pass s whole w' next.rest rest) :
      Sweeps pass s whole w p (rest ++ turn pass s w p next fired)

variable {call : Caller} {pass : Nat} {s : SchedulerId} {t : TimerId} {r r' stop : Run}
  {p : Snapshot} {cs : List FireCall} {result : Except Interrupt (Option Duration)}

/-- What a callback adds after its start is no part of a pass that has begun before. -/
theorem fires_of_started {start : World.Started} {w : World} (hpass : pass < r.passes)
    (htake : r.world.take s t = .started start w)
    (h : Run.Continues none (r.starting s t start w) r') :
    ∃ ms, Fires pass s t r.world ms r'.world ∧ r'.journal = ms ++ r.journal ∧
      r.passes ≤ r'.passes := by
  obtain ⟨since, hext⟩ := h
  refine ⟨since ++ [⟨_, _⟩], ⟨(World.Path.cons .nil (.started htake)).append hext.path, ?_, ?_⟩, ?_,
    hext.passes⟩
  · intro m hm hmine
    rcases List.mem_append.mp hm with hm | hm
    · rcases hext.owner m hm pass hmine with hnone | hnew
      · cases hnone
      · exact absurd hpass (Nat.not_lt.mpr hnew)
    · obtain rfl := List.mem_singleton.mp hm
      cases hmine
  · intro _ _ _
    exact ⟨_, since, rfl, rfl⟩
  · rw [hext.journal, List.append_assoc]
    rfl

theorem fires_fire (hcall : call.Keeps (Run.Continues none)) (s : SchedulerId) (t : TimerId)
    (hpass : pass < r.passes) :
    ∃ ms, Fires pass s t r.world ms (after (fire call s t) r).world ∧
      (after (fire call s t) r).journal = ms ++ r.journal ∧
      r.passes ≤ (after (fire call s t) r).passes := by
  unfold fire
  rw [after_world_bind]
  cases htake : r.world.take s t with
  | absent =>
    refine ⟨[], ⟨.nil, fun m hm => absurd hm List.not_mem_nil, fun h => ?_⟩, rfl, Nat.le_refl _⟩
    cases htake.symm.trans h
  | idle w =>
    refine ⟨[⟨.emptied s t, w⟩], ⟨.cons .nil (.emptied htake), fun m hm => ?_, fun h => ?_⟩, rfl,
      Nat.le_refl _⟩
    · obtain rfl := List.mem_singleton.mp hm
      exact fun hnone => nomatch hnone
    · cases htake.symm.trans h
  | started start w =>
    refine fires_of_started hpass htake (closed_continues.bind ?_ (fun ending r' _ => ?_))
    · rw [after_shield]
      exact hcall ..
    · exact ⟨_, .advance (fun _ hnone => nomatch hnone) (.settled s t start)
        fun _ hpass => nomatch hpass⟩

/-- Picking a timer that is due and firing it is a turn. -/
theorem turn_fire (hcall : call.Keeps (Run.Continues none)) {next : Snapshot.Pick}
    (hpass : pass < r.passes) (hpick : (p.skip r.world).pick? = some next)
    (hdue : ¬ next.wait.IsPositive) :
    ∃ fired, Turn pass s r.world p next fired
        (after (fire call s next.timer) (r.picking pass s p next)).world ∧
      (after (fire call s next.timer) (r.picking pass s p next)).journal =
        turn pass s r.world p next fired ++ r.journal ∧
      r.passes ≤ (after (fire call s next.timer) (r.picking pass s p next)).passes := by
  obtain ⟨fired, hfires, hjournal, hpasses⟩ :=
    fires_fire hcall s next.timer (r := r.picking pass s p next) hpass
  refine ⟨fired, ⟨hpick, hdue, hfires⟩, ?_, hpasses⟩
  rw [hjournal]
  simp [turn, Run.picking, Run.passing, Run.advance]

/-- A pass that serves a snapshot goes through it turn by turn. -/
theorem Serves.sweeps (h : Serves call pass s r p cs result stop)
    (hcall : call.Keeps (Run.Continues none)) (hpass : pass < r.passes) :
    ∃ ms, stop.journal = ms ++ r.journal ∧ r.world.Path ms stop.world ∧
      Sweeps pass s (interruptOf result).isNone r.world p ms := by
  induction h with
  | spent hsize => exact ⟨[], rfl, .nil, .spent hsize⟩
  | stopped hstop => exact ⟨_, rfl, .cons .nil (.passedOver pass s _), .stopped hstop⟩
  | broken hpick hdue hfire =>
    obtain ⟨fired, hturn, hjournal, -⟩ := turn_fire (s := s) hcall hpass hpick hdue
    rw [after, hfire] at hturn hjournal
    exact ⟨_, hjournal, hturn.path, .broken hturn⟩
  | turned hpick hdue hfire _ ih =>
    obtain ⟨fired, hturn, hjournal, hpasses⟩ := turn_fire (s := s) hcall hpass hpick hdue
    rw [after, hfire] at hturn hjournal hpasses
    obtain ⟨ms, hrest, hpath, hsweeps⟩ := ih (hpass.trans_le hpasses)
    refine ⟨_, ?_, hturn.path.append hpath, .turned hturn hsweeps⟩
    rw [hrest, hjournal, List.append_assoc]

/-- The moments of a pass that belong to it. -/
theorem Sweeps.pass? {whole : Bool} {w : World} {p : Snapshot} {ms : List Moment}
    (h : Sweeps pass s whole w p ms) {m : Moment} (hm : m ∈ ms)
    (hpass : m.event.pass? = some pass) :
    (∃ entries, m.event = .passedOver pass s entries) ∨
      ∃ t trigger wait, m.event = .picked pass s t trigger wait := by
  have hturn : ∀ {w w' : World} {p : Snapshot} {next : Snapshot.Pick} {fired : List Moment},
      Turn pass s w p next fired w' → m ∈ turn pass s w p next fired →
      (∃ entries, m.event = .passedOver pass s entries) ∨
        ∃ t trigger wait, m.event = .picked pass s t trigger wait := by
    intro w w' p next fired hturn hm
    rcases List.mem_append.mp hm with hm | hm
    · exact absurd hpass (hturn.fires.foreign m hm)
    · rcases List.mem_cons.mp hm with rfl | hm
      · exact Or.inr ⟨_, _, _, rfl⟩
      · obtain rfl := List.mem_singleton.mp hm
        exact Or.inl ⟨_, rfl⟩
  induction h with
  | spent hsize => cases hm
  | stopped hstop =>
    obtain rfl := List.mem_singleton.mp hm
    exact Or.inl ⟨_, rfl⟩
  | broken h => exact hturn h hm
  | turned h _ ih =>
    rcases List.mem_append.mp hm with hm | hm
    · exact ih hm
    · exact hturn h hm

/-- Where a pass is in a run: when it began, the moments of its turns, and what came before and
after. -/
structure Swept (r : Run) (pass : Nat) (s : SchedulerId) (whole : Bool) (began : Moment)
    (ms later earlier : List Moment) : Prop where
  journal : r.journal = later ++ (ms ++ began :: earlier)
  sweeps : Sweeps pass s whole began.world
    (.ofWorld began.world s began.world.host.idleFor?) ms
  before : ∀ m ∈ earlier, m.event.pass? ≠ some pass
  ended : whole = true → ∃ m ∈ later, ∃ loop report, m.event = .passEnded pass s loop report
  after : ∀ m ∈ later, m.event.pass? = some pass →
    whole = true ∧ ∃ loop report, m.event = .passEnded pass s loop report

/-- What a pass leaves in the journal. -/
theorem swept_drain (hcall : call.Keeps (Run.Continues none)) (s : SchedulerId) (loop : LoopId)
    (hbelow : ∀ m ∈ r.journal, m.event.pass? ≠ some r.passes) :
    ∃ ms later, Swept (after (drain call s loop) r) r.passes s (returns (drain call s loop) r)
      ⟨.passBegan r.passes s loop r.world.host.idleFor?, r.world.observed s loop⟩ ms later
      (r.world.waking s loop ++ r.journal) := by
  have hbefore : ∀ m ∈ r.world.waking s loop ++ r.journal, m.event.pass? ≠ some r.passes := by
    intro m hm hmine
    rcases List.mem_append.mp hm with hm | hm
    · cases (World.pass?_of_mem_waking hm).symm.trans hmine
    · exact hbelow m hm hmine
  obtain ⟨cs, result, stop, hserves, hdrain⟩ := serves_drain call s loop r
  obtain ⟨ms, hjournal, -, hsweeps⟩ := hserves.sweeps hcall (Nat.lt_succ_self _)
  unfold after returns
  rw [hdrain]
  cases result with
  | ok untilNext =>
    let report : PassReport := ⟨cs.countP fun c => !c.skipped call s, untilNext⟩
    refine ⟨ms, [⟨.passEnded r.passes s loop report, stop.world⟩], ?_, hsweeps, hbefore,
      fun _ => ⟨_, List.mem_singleton.mpr rfl, loop, report, rfl⟩, fun m hm _ => ?_⟩
    · change _ :: stop.journal = _
      rw [hjournal]
      rfl
    · obtain rfl := List.mem_singleton.mp hm
      exact ⟨rfl, loop, report, rfl⟩
  | error i =>
    exact ⟨ms, [], hjournal, hsweeps, hbefore, (fun hfalse => nomatch hfalse),
      fun m hm => absurd hm List.not_mem_nil⟩

theorem Event.Begins.pass? {e : Event} (h : e.Begins pass s) : e.pass? = some pass := by
  cases e with
  | passBegan pass' s' loop idleFor => exact congrArg some h.1
  | _ => exact h.elim

/-- A beginning is that of one pass over one scheduler. -/
theorem Event.Begins.unique {e : Event} {pass' : Nat} {s' : SchedulerId} (h : e.Begins pass s)
    (h' : e.Begins pass' s') : pass = pass' ∧ s = s' := by
  cases e with
  | passBegan pass'' s'' loop idleFor => exact ⟨h.1.symm.trans h'.1, h.2.symm.trans h'.2⟩
  | _ => exact h.elim

/-- What holds of each pass over a scheduler that an event begins can be checked. -/
theorem Event.forall_begins_iff {e : Event} {P : Nat → Prop} :
    (∀ pass, e.Begins pass s → P pass) ↔ ∀ pass ∈ e.pass?, e.Begins pass s → P pass :=
  ⟨fun h pass _ hbegins => h pass hbegins, fun h pass hbegins => h pass hbegins.pass? hbegins⟩

section Swept

variable {whole : Bool} {began m : Moment} {ms later earlier : List Moment} {s' : SchedulerId}

/-- A pass begins at no other moment than the one before its turns. -/
theorem Swept.not_begins (h : Swept r pass s whole began ms later earlier)
    (hm : m ∈ (later ++ ms) ++ earlier) : ¬ m.event.Begins pass s' := by
  intro hbegins
  have hmine := hbegins.pass?
  rcases List.mem_append.mp hm with hm | hm
  · rcases List.mem_append.mp hm with hm | hm
    · obtain ⟨-, loop', report, hended⟩ := h.after m hm hmine
      rw [hended] at hbegins
      exact hbegins.elim
    · rcases h.sweeps.pass? hm hmine with ⟨entries, hover⟩ | ⟨t, trigger, wait, hpicked⟩
      · rw [hover] at hbegins
        exact hbegins.elim
      · rw [hpicked] at hbegins
        exact hbegins.elim
  · exact absurd hmine (h.before m hm)

theorem Swept.eq_began (h : Swept r pass s whole began ms later earlier) (hm : m ∈ r.journal)
    (hbegins : m.event.Begins pass s') : m = began := by
  rw [h.journal, ← List.append_assoc] at hm
  rcases List.mem_append.mp hm with hm | hm
  · exact absurd hbegins (h.not_begins (List.mem_append_left _ hm))
  · rcases List.mem_cons.mp hm with heq | hm
    · exact heq
    · exact absurd hbegins (h.not_begins (List.mem_append_right _ hm))

/-- A journal is split in one way at the beginning of a pass. -/
theorem Swept.split_eq (h : Swept r pass s whole began ms later earlier)
    {after before : List Moment} (hjournal : r.journal = after ++ began :: before)
    (hbegins : began.event.Begins pass s') : after = later ++ ms ∧ before = earlier := by
  have hlater : began ∉ later ++ ms := fun hm => h.not_begins (List.mem_append_left _ hm) hbegins
  have hearlier : began ∉ earlier := fun hm => h.not_begins (List.mem_append_right _ hm) hbegins
  rw [h.journal, ← List.append_assoc] at hjournal
  obtain ⟨hafter, -, hbefore⟩ := (List.append_cons_inj_of_notMem hlater hearlier).mp hjournal
  exact ⟨hafter.symm, hbefore.symm⟩

end Swept

theorem Swept.split {whole : Bool} {began m : Moment} {ms later earlier after before : List Moment}
    (h : Swept r pass s whole began ms later earlier) (hsplit : ms = after ++ m :: before) :
    r.journal = (later ++ after) ++ m :: (before ++ began :: earlier) := by
  rw [h.journal, hsplit]
  simp

/-- What follows without moments of the pass leaves it as it is. -/
theorem Swept.append {whole : Bool} {began : Moment} {ms later earlier last : List Moment}
    (h : Swept r pass s whole began ms later earlier) (hjournal : r'.journal = last ++ r.journal)
    (hlast : ∀ m ∈ last, m.event.pass? ≠ some pass) :
    Swept r' pass s whole began ms (last ++ later) earlier := by
  refine ⟨?_, h.sweeps, h.before, fun hwhole => ?_, fun m hm hmine => ?_⟩
  · rw [hjournal, h.journal, List.append_assoc]
  · obtain ⟨m, hm, hended⟩ := h.ended hwhole
    exact ⟨m, List.mem_append_right _ hm, hended⟩
  · rcases List.mem_append.mp hm with hm | hm
    · exact absurd hmine (hlast m hm)
    · exact h.after m hm hmine

/-- A pass of a run that began in the world `w`: the run `begun` in which it was begun by a loop,
and what it left in the journal. -/
structure Drained (w : World) (r : Run) (pass : Nat) (s : SchedulerId) (loop : LoopId)
    (begun : Run) (whole : Bool) (began : Moment) (ms later : List Moment) : Prop where
  path : w.Path begun.journal begun.world
  began_eq : began =
    ⟨.passBegan pass s loop begun.world.host.idleFor?, begun.world.observed s loop⟩
  swept : Swept r pass s whole began ms later (begun.world.waking s loop ++ begun.journal)

section Drained

variable {w : World} {loop : LoopId} {begun : Run} {whole : Bool} {began m : Moment}
  {ms later : List Moment}

theorem Drained.begins (h : Drained w r pass s loop begun whole began ms later) :
    began.event.Begins pass s := by
  rw [h.began_eq]
  exact ⟨rfl, rfl⟩

theorem Drained.mem (h : Drained w r pass s loop begun whole began ms later) :
    began ∈ r.journal := by
  simp [h.swept.journal]

theorem Drained.host_eq (h : Drained w r pass s loop begun whole began ms later) :
    began.world.host = begun.world.host := by
  rw [h.began_eq]
  exact (World.SameFrame.woken begun.world s loop).host

/-- The loop that makes a pass sees how the host is. -/
theorem Drained.sees (h : Drained w r pass s loop begun whole began ms later) :
    began.event.sees? loop = some began.world.host.idleFor? := by
  rw [h.host_eq, h.began_eq, Event.sees?_eq_some_iff]
  exact ⟨pass, s, rfl⟩

theorem Drained.wakes_iff (h : Drained w r pass s loop begun whole began ms later)
    (hnew : w.loops.get loop = false) : begun.world.wakes loop = true ↔
      began.world.host.idleFor?.isSome = true ∧ recalls loop begun.journal = false := by
  unfold World.wakes
  rw [h.path.loops_eq hnew, h.host_eq, Bool.and_eq_true, Bool.not_eq_true', and_comm]

/-- All idle timers are live when a pass begins that sees the host idle, if its loop did not
remember that. -/
theorem Drained.live (h : Drained w r pass s loop begun whole began ms later)
    (hwakes : begun.world.wakes loop = true) {t : TimerId}
    (ht : t ∈ (began.world.scheduler s).idle.items) : (began.world.timer t).triggered = false := by
  obtain ⟨-, rfl, -⟩ := h
  exact World.triggered_observed hwakes ht

/-- What a pass leaves in a run was left when the pass was made, and none of it came before. -/
theorem World.RunsTo.exists_drain (h : w.RunsTo r) (hm : m ∈ r.journal)
    (hpass : m.event.pass? = some pass) :
    ∃ (behaviour : Behaviour) (depth : Nat) (s : SchedulerId) (loop : LoopId) (begun : Run)
      (last : List Moment), Run.Leads begun.journal { world := w } begun ∧ begun.passes = pass ∧
        r.journal = last ++ (Act.after (drain (caller behaviour depth) s loop) begun).journal ∧
        ∀ m ∈ last, m.event.pass? ≠ some pass := by
  obtain ⟨⟨since, hext⟩, hpasses⟩ := h.traced
  have hsince : r.journal = since := by simpa using hext.journal
  have hlt : pass < r.passes := hext.below m (hsince ▸ hm) pass hpass
  obtain ⟨behaviour, depth, s, loop, begun, before, last, hleads, rfl, hjournal, hlast⟩ :=
    hpasses pass (Nat.zero_le _) hlt
  have hbefore : begun.journal = before := by simpa using hleads.journal
  exact ⟨behaviour, depth, s, loop, begun, last, hbefore ▸ hleads, rfl, hjournal, hlast⟩

/-- Every pass of a run goes through its snapshot turn by turn. -/
theorem World.RunsTo.drained (h : w.RunsTo r) (hm : m ∈ r.journal)
    (hpass : m.event.pass? = some pass) :
    ∃ s loop begun whole began ms later, Drained w r pass s loop begun whole began ms later := by
  obtain ⟨behaviour, depth, s, loop, begun, last, hleads, rfl, hjournal, hlast⟩ :=
    h.exists_drain hm hpass
  obtain ⟨ms, later, hdrain⟩ :=
    swept_drain (keeps_continues behaviour depth) s loop hleads.pass?_ne
  exact ⟨s, loop, begun, _, _, ms, _, hleads.path, rfl, hdrain.append hjournal hlast⟩

theorem World.RunsTo.drained_of_begins (h : w.RunsTo r) (hbegan : began ∈ r.journal)
    (hbegins : began.event.Begins pass s) :
    ∃ loop begun whole ms later, Drained w r pass s loop begun whole began ms later := by
  obtain ⟨s', loop, begun, whole, began', ms, later, hdrained⟩ := h.drained hbegan hbegins.pass?
  obtain rfl := hdrained.swept.eq_began hbegan hbegins
  obtain ⟨-, rfl⟩ := hbegins.unique hdrained.begins
  exact ⟨loop, begun, whole, ms, later, hdrained⟩

end Drained

end Timekeeping
