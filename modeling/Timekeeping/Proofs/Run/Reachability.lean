import Timekeeping.Proofs.Run.Closure

/-!
The runs that operations from outside can lead to, and where in such a run its
passes are. Every change of a run is a step in its journal, and the steps of a
pass stand between those that callbacks take while it lasts.
-/
namespace Timekeeping

open Act

/-- A world in which nothing has happened: there are no timers, and all queues are empty. -/
structure World.Fresh (w : World) : Prop where
  created : w.created = 0
  timer : ∀ t, w.timer t = {}
  active : ∀ s, (w.scheduler s).active.entries = []
  idle : ∀ s, (w.scheduler s).idle.entries = []

/-- The runs in which operations are performed from outside, one after another. An operation that
was interrupted is followed by the next one like any other. -/
inductive Reachable : Run → Prop
  | start {w : World} (h : w.Fresh) : Reachable { world := w }
  | perform {r : Run} (behaviour : Behaviour) (depth : Nat) (operation : Operation)
      (h : Reachable r) : Reachable (after (execute behaviour depth operation) r)

/-- The runs to which operations from outside lead from a world, whatever it is. -/
inductive World.RunsTo (w : World) : Run → Prop
  | start : w.RunsTo { world := w }
  | perform {r : Run} (behaviour : Behaviour) (depth : Nat) (operation : Operation)
      (h : w.RunsTo r) : w.RunsTo (after (execute behaviour depth operation) r)

theorem World.RunsTo.reachable {w : World} {r : Run} (h : w.RunsTo r) (hfresh : w.Fresh) :
    Reachable r := by
  induction h with
  | start => exact .start hfresh
  | perform behaviour depth operation _ ih => exact ih.perform behaviour depth operation

theorem Reachable.exists_runsTo {r : Run} (h : Reachable r) :
    ∃ w : World, w.Fresh ∧ w.RunsTo r := by
  induction h with
  | start hfresh => exact ⟨_, hfresh, .start⟩
  | perform behaviour depth operation _ ih =>
    obtain ⟨w, hfresh, hruns⟩ := ih
    exact ⟨w, hfresh, hruns.perform behaviour depth operation⟩

/-- Operations that are performed from outside, one after another. -/
def performAll (behaviour : Behaviour) (depth : Nat) (operations : List Operation) (r : Run) :
    Run :=
  operations.foldl (fun r operation => after (execute behaviour depth operation) r) r

theorem World.RunsTo.performAll {w : World} {r : Run} (h : w.RunsTo r) (behaviour : Behaviour)
    (depth : Nat) (operations : List Operation) :
    w.RunsTo (performAll behaviour depth operations r) := by
  induction operations generalizing r with
  | nil => exact h
  | cons operation rest ih => exact ih (h.perform behaviour depth operation)

theorem Reachable.performAll {r : Run} (h : Reachable r) (behaviour : Behaviour) (depth : Nat)
    (operations : List Operation) : Reachable (performAll behaviour depth operations r) := by
  obtain ⟨w, hfresh, hruns⟩ := h.exists_runsTo
  exact (hruns.performAll behaviour depth operations).reachable hfresh

theorem World.Fresh.waiting {w : World} (h : w.Fresh) (s : SchedulerId) (kind : QueueKind) :
    w.waiting s kind = [] := by
  cases kind with
  | active => simp [World.waiting, Scheduler.waiting, h.active]
  | idle => simp [World.waiting, Scheduler.waiting, h.idle]

theorem World.Fresh.sound {w : World} (h : w.Fresh) : w.Sound := by
  have hwaiting := h.waiting
  have hout : ∀ t, (w.timer t).queued = none := fun t => by rw [h.timer]
  constructor
  · intro s
    simp [Scheduler.Ordered, Queue.Ordered, h.active, h.idle]
  · intro s kind
    simp [hwaiting]
  · intro s kind t trigger ht
    simp [hwaiting] at ht
  · intro s s' kind t trigger trigger' ht
    simp [hwaiting] at ht
  · intro t kind ht
    simp [hout] at ht
  · intro t ht
    exact absurd (hout t) ht
  · intro t ht
    exact absurd (hout t) ht

namespace Run

/-- A run goes on from another by the moments in `since`. -/
structure Leads (since : List Moment) (r r' : Run) : Prop where
  journal : r'.journal = since ++ r.journal
  path : r.world.Path since r'.world
  passes : r.passes ≤ r'.passes
  below : ∀ m ∈ since, ∀ pass, m.event.pass? = some pass → pass < r'.passes

/-- Moments of passes belong to passes that began meanwhile, or to the pass `own`. -/
structure Extends (own : Option Nat) (since : List Moment) (r r' : Run) : Prop
    extends Leads since r r' where
  owner : ∀ m ∈ since, ∀ pass, m.event.pass? = some pass → own = some pass ∨ r.passes ≤ pass

def Continues (own : Option Nat) (r r' : Run) : Prop := ∃ since, Extends own since r r'

variable {own : Option Nat} {since since' : List Moment} {r₁ r₂ r₃ r r' : Run}

theorem Leads.refl (r : Run) : Leads [] r r :=
  ⟨rfl, .nil, Nat.le_refl _, fun _ hm => absurd hm List.not_mem_nil⟩

theorem Leads.trans (h : Leads since r₁ r₂) (h' : Leads since' r₂ r₃) :
    Leads (since' ++ since) r₁ r₃ := by
  refine ⟨?_, h.path.append h'.path, h.passes.trans h'.passes, fun m hm pass hpass => ?_⟩
  · rw [h'.journal, h.journal, List.append_assoc]
  · rcases List.mem_append.mp hm with hm | hm
    · exact h'.below m hm pass hpass
    · exact (h.below m hm pass hpass).trans_le h'.passes

/-- No moment belongs to a pass that has not begun. -/
theorem Leads.pass?_ne (h : Leads since r r') : ∀ m ∈ since, m.event.pass? ≠ some r'.passes :=
  fun m hm hmine => absurd (h.below m hm _ hmine) (Nat.lt_irrefl _)

theorem Extends.refl (own : Option Nat) (r : Run) : Extends own [] r r :=
  ⟨Leads.refl r, fun _ hm => absurd hm List.not_mem_nil⟩

theorem Extends.trans (h : Extends own since r₁ r₂) (h' : Extends own since' r₂ r₃) :
    Extends own (since' ++ since) r₁ r₃ := by
  refine ⟨h.toLeads.trans h'.toLeads, fun m hm pass hpass => ?_⟩
  rcases List.mem_append.mp hm with hm | hm
  · exact (h'.owner m hm pass hpass).imp_right h.passes.trans
  · exact h.owner m hm pass hpass

/-- One step, of a pass that has begun if it belongs to a pass. -/
theorem Extends.advance {e : Event} {w : World} (hown : ∀ pass, own = some pass → pass < r.passes)
    (hstep : r.world.Step e w) (hpass : ∀ pass, e.pass? = some pass → own = some pass) :
    Extends own [⟨e, w⟩] r (r.advance e w) := by
  refine ⟨⟨rfl, .cons .nil hstep, Nat.le_refl _, fun m hm pass hm' => ?_⟩, fun m hm pass hm' => ?_⟩
  · obtain rfl := List.mem_singleton.mp hm
    exact hown pass (hpass pass hm')
  · obtain rfl := List.mem_singleton.mp hm
    exact Or.inl (hpass pass hm')

/-- What callbacks do is no part of a pass that is under way. -/
theorem Extends.of_none (h : Extends none since r r') (own : Option Nat) : Extends own since r r' :=
  ⟨h.toLeads, fun m hm pass hpass =>
    Or.inr ((h.owner m hm pass hpass).resolve_left fun hnone => nomatch hnone)⟩

/-- Somewhere between two runs the pass was run, and nothing after that belongs to it. -/
def Passes (pass : Nat) (r r' : Run) : Prop :=
  ∃ (behaviour : Behaviour) (depth : Nat) (s : SchedulerId) (loop : LoopId) (begun : Run)
    (since later : List Moment), Leads since r begun ∧ begun.passes = pass ∧
      r'.journal = later ++ (after (drain (caller behaviour depth) s loop) begun).journal ∧
      ∀ m ∈ later, m.event.pass? ≠ some pass

/-- A run goes on from another, and all passes in between were run. -/
structure Traced (own : Option Nat) (r r' : Run) : Prop where
  continues : Continues own r r'
  passes : ∀ pass, r.passes ≤ pass → pass < r'.passes → Passes pass r r'

theorem Traced.refl (own : Option Nat) (r : Run) : Traced own r r :=
  ⟨⟨[], .refl own r⟩, fun _ hge hlt => absurd hlt (Nat.not_lt.mpr hge)⟩

theorem Traced.trans (hown : ∀ pass, own = some pass → pass < r₁.passes) (h : Traced own r₁ r₂)
    (h' : Traced own r₂ r₃) : Traced own r₁ r₃ := by
  obtain ⟨⟨since, hext⟩, hpasses⟩ := h
  obtain ⟨⟨since', hext'⟩, hpasses'⟩ := h'
  refine ⟨⟨_, hext.trans hext'⟩, fun pass hge hlt => ?_⟩
  rcases Nat.lt_or_ge pass r₂.passes with hearly | hlate
  · obtain ⟨behaviour, depth, s, loop, begun, before, later, hbegun, hpass, hjournal, hlater⟩ :=
      hpasses pass hge hearly
    refine ⟨behaviour, depth, s, loop, begun, before, since' ++ later, hbegun, hpass, ?_, ?_⟩
    · rw [hext'.journal, hjournal, List.append_assoc]
    · intro m hm hmine
      rcases List.mem_append.mp hm with hm | hm
      · rcases hext'.owner m hm pass hmine with hown' | hnew
        · exact absurd (hown pass hown') (Nat.not_lt.mpr hge)
        · exact absurd hearly (Nat.not_lt.mpr hnew)
      · exact hlater m hm hmine
  · obtain ⟨behaviour, depth, s, loop, begun, before, later, hbegun, hpass, hjournal, hlater⟩ :=
      hpasses' pass hlate hlt
    exact ⟨behaviour, depth, s, loop, begun, _, later, hext.toLeads.trans hbegun, hpass, hjournal,
      hlater⟩

theorem closed_traced (own : Option Nat) :
    Closed own (fun _ => True) fun r r' =>
      (∀ pass, own = some pass → pass < r.passes) → Traced own r r' := by
  refine .of_steps (fun r _ => .refl own r) (fun h h' hown => ?_) (fun hstep hpass hown => ?_)
  · have hfirst := h hown
    obtain ⟨since, hext⟩ := hfirst.continues
    exact hfirst.trans hown (h' fun pass hpass => (hown pass hpass).trans_le hext.passes)
  · exact ⟨⟨_, .advance hown hstep hpass⟩, fun _ hge hlt => absurd hlt (Nat.not_lt.mpr hge)⟩

/-- A pass goes on from the run in which it is begun, and is one of the passes in between. -/
theorem traced_drain {behaviour : Behaviour} {depth : Nat}
    (hcall : (caller behaviour depth).Keeps (Traced none)) (s : SchedulerId) (loop : LoopId)
    (r : Run) : Traced none r (after (drain (caller behaviour depth) s loop) r) := by
  have hcall' : (caller behaviour depth).KeepsOn (fun _ => True) fun r' r'' =>
      (∀ pass, some r.passes = some pass → pass < r'.passes) → Traced (some r.passes) r' r'' := by
    intro s _ callback number args r' _
    obtain ⟨⟨since, hext⟩, hpasses⟩ := hcall s callback number args r'
    exact ⟨⟨since, hext.of_none _⟩, hpasses⟩
  have hdrain := (closed_traced (some r.passes)).drain hcall' (s := s) trivial loop
  obtain ⟨⟨since, hext⟩, hpasses⟩ := hdrain fun pass hpass => by
    obtain rfl := Option.some.inj hpass
    exact Nat.lt_succ_self _
  have hle : r.passes + 1 ≤ (after (drain (caller behaviour depth) s loop) r).passes := hext.passes
  refine ⟨⟨since, ⟨hext.journal, hext.path, by omega, hext.below⟩, fun m hm pass hpass => ?_⟩, ?_⟩
  · rcases hext.owner m hm pass hpass with hown | hnew
    · exact Or.inr (Nat.le_of_eq (Option.some.inj hown))
    · exact Or.inr ((Nat.le_succ _).trans hnew)
  · intro pass hge hlt
    rcases Nat.eq_or_lt_of_le hge with rfl | hnested
    · exact ⟨behaviour, depth, s, loop, r, [], [], .refl r, rfl, rfl,
        fun _ hm => absurd hm List.not_mem_nil⟩
    · obtain ⟨behaviour', depth', s', loop', begun, before, later, hbegun, hpass, hjournal, hlater⟩ :=
        hpasses pass hnested hlt
      refine ⟨behaviour', depth', s', loop', begun, before, later, ?_, hpass, hjournal, hlater⟩
      exact ⟨hbegun.journal, hbegun.path, (Nat.le_succ _).trans hbegun.passes, hbegun.below⟩

/-- What callbacks do is traced, and so is what they do within their passes. -/
theorem keeps_traced (behaviour : Behaviour) (depth : Nat) :
    (caller behaviour depth).Keeps (Traced none) := by
  have hkeeps := (closed_traced none).caller
    (fun _ hcall s _ loop r _ => traced_drain (fun s callback number args r' =>
      hcall s trivial callback number args r' fun _ hnone => nomatch hnone) s loop r)
    behaviour.within_all depth
  exact fun s callback number args r =>
    hkeeps s trivial callback number args r fun _ hnone => nomatch hnone

theorem traced_execute (behaviour : Behaviour) (depth : Nat) (operation : Operation) (r : Run) :
    Traced none r (after (execute behaviour depth operation) r) := by
  have hexecute := (closed_traced none).perform
    (fun s _ callback number args r _ => keeps_traced behaviour depth s callback number args r)
    (fun s _ loop r _ => traced_drain (keeps_traced behaviour depth) s loop r)
    operation.within_all r
  exact hexecute fun _ hnone => nomatch hnone

theorem continues_performAll (behaviour : Behaviour) (depth : Nat) (operations : List Operation)
    (r : Run) : Continues none r (performAll behaviour depth operations r) := by
  induction operations generalizing r with
  | nil => exact ⟨[], .refl none r⟩
  | cons operation rest ih =>
    obtain ⟨since, hfirst⟩ := (traced_execute behaviour depth operation r).continues
    obtain ⟨since', hrest⟩ := ih (after (execute behaviour depth operation) r)
    exact ⟨_, hfirst.trans hrest⟩

end Run

theorem World.RunsTo.traced {w : World} {r : Run} (h : w.RunsTo r) :
    Run.Traced none { world := w } r := by
  induction h with
  | start => exact .refl none _
  | perform behaviour depth operation _ ih =>
    exact ih.trans (fun _ hnone => nomatch hnone) (Run.traced_execute behaviour depth operation _)

/-- Callbacks go on from the run in which they are called. -/
theorem keeps_continues (behaviour : Behaviour) (depth : Nat) :
    (caller behaviour depth).Keeps (Run.Continues none) :=
  fun s callback number args r =>
    (Run.keeps_traced behaviour depth s callback number args r).continues

/-- The journal of a run leads from the world in which it began to that in which it ends. -/
theorem World.RunsTo.path {w : World} {r : Run} (h : w.RunsTo r) : w.Path r.journal r.world := by
  obtain ⟨⟨since, hext⟩, -⟩ := h.traced
  have hjournal : r.journal = since := by simpa using hext.journal
  rw [hjournal]
  exact hext.path

theorem Reachable.path {r : Run} (h : Reachable r) :
    ∃ w : World, w.Fresh ∧ w.Path r.journal r.world := by
  obtain ⟨w, hfresh, hruns⟩ := h.exists_runsTo
  exact ⟨w, hfresh, hruns.path⟩

/-- The moments up to any one of a path lead to its world. -/
theorem World.Path.at_moment {w w' : World} {ms later earlier : List Moment} {m : Moment}
    (h : w.Path ms w') (hsplit : ms = later ++ m :: earlier) :
    w.Path (m :: earlier) m.world ∧ m.world.Path later w' := by
  rw [hsplit] at h
  obtain ⟨w₁, hearlier, hlater⟩ := h.split
  have hworld : w₁ = m.world := by
    cases hearlier
    rfl
  subst hworld
  exact ⟨hearlier, hlater⟩

theorem World.RunsTo.path_to {w : World} {r : Run} (h : w.RunsTo r) {later earlier : List Moment}
    {m : Moment} (hjournal : r.journal = later ++ m :: earlier) :
    w.Path (m :: earlier) m.world ∧ m.world.Path later r.world :=
  h.path.at_moment hjournal

/-- A stretch of a journal leads on from the moment before it. -/
theorem World.RunsTo.path_between {w : World} {r : Run} (h : w.RunsTo r)
    {later between before : List Moment} {m : Moment}
    (hjournal : r.journal = later ++ (between ++ m :: before)) :
    ∃ w' : World, w.Path (m :: before) m.world ∧ m.world.Path between w' := by
  have hsplit : r.journal = (later ++ between) ++ m :: before := by
    rw [hjournal, List.append_assoc]
  obtain ⟨hbefore, hafter⟩ := h.path_to hsplit
  obtain ⟨w', hbetween, -⟩ := hafter.split
  exact ⟨w', hbefore, hbetween⟩

theorem Reachable.path_to {r : Run} (h : Reachable r) {later earlier : List Moment} {m : Moment}
    (hjournal : r.journal = later ++ m :: earlier) :
    ∃ w : World, w.Fresh ∧ w.Path (m :: earlier) m.world ∧ m.world.Path later r.world := by
  obtain ⟨w, hfresh, hruns⟩ := h.exists_runsTo
  exact ⟨w, hfresh, hruns.path_to hjournal⟩

/-- Queues and rows agree in the end and at every moment of a run. -/
theorem Reachable.sound {r : Run} (h : Reachable r) :
    r.world.Sound ∧ ∀ m ∈ r.journal, m.world.Sound := by
  obtain ⟨w, hfresh, hpath⟩ := h.path
  exact hpath.sound hfresh.sound

namespace Run

/-- The run goes back by steps to a world in which nothing had happened. So do all runs in which an
operation is performed or a pass begins, be it from outside or within callbacks. -/
def Founded (r : Run) : Prop := ∃ w : World, w.Fresh ∧ Leads r.journal { world := w } r

namespace Founded

variable {r r' : Run} {own : Option Nat}

theorem of_fresh {w : World} (h : w.Fresh) : Founded { world := w } := ⟨w, h, .refl _⟩

theorem continues (h : r.Founded) (hnext : Continues own r r') : r'.Founded := by
  obtain ⟨w, hfresh, hleads⟩ := h
  obtain ⟨since, hext⟩ := hnext
  refine ⟨w, hfresh, ?_⟩
  rw [hext.journal]
  exact hleads.trans hext.toLeads

theorem path (h : r.Founded) : ∃ w : World, w.Fresh ∧ w.Path r.journal r.world := by
  obtain ⟨w, hfresh, hleads⟩ := h
  exact ⟨w, hfresh, hleads.path⟩

/-- Queues and rows agree in the run and at every moment before. -/
theorem sound (h : r.Founded) : r.world.Sound ∧ ∀ m ∈ r.journal, m.world.Sound := by
  obtain ⟨w, hfresh, hpath⟩ := h.path
  exact hpath.sound hfresh.sound

theorem after_drain (h : r.Founded) (behaviour : Behaviour) (depth : Nat) (s : SchedulerId)
    (loop : LoopId) : (after (drain (caller behaviour depth) s loop) r).Founded :=
  h.continues (traced_drain (keeps_traced behaviour depth) s loop r).continues

theorem pass?_ne (h : r.Founded) : ∀ m ∈ r.journal, m.event.pass? ≠ some r.passes := by
  obtain ⟨w, -, hleads⟩ := h
  exact hleads.pass?_ne

end Founded
end Run

theorem Reachable.founded {r : Run} (h : Reachable r) : r.Founded := by
  obtain ⟨w, hfresh, hruns⟩ := h.exists_runsTo
  exact (Run.Founded.of_fresh hfresh).continues hruns.traced.continues

/-- The world occurs in a run that operations lead to, at its end or within. Callbacks find such worlds,
wherever they are called. -/
def World.Arises (w : World) : Prop :=
  ∃ r, Reachable r ∧ (r.world = w ∨ ∃ m ∈ r.journal, m.world = w)

theorem Reachable.arises {r : Run} (h : Reachable r) : r.world.Arises := ⟨r, h, Or.inl rfl⟩

theorem World.Arises.sound {w : World} (h : w.Arises) : w.Sound := by
  obtain ⟨r, hr, rfl | ⟨m, hm, rfl⟩⟩ := h
  · exact hr.sound.1
  · exact hr.sound.2 m hm

/-- A journal can be split at each of its moments. -/
theorem exists_split_at (ms : List Moment) {i : Nat} (h : i < ms.length) :
    ∃ m ∈ ms[i]?, ms = ms.take i ++ m :: ms.drop (i + 1) := by
  refine ⟨_, List.getElem?_eq_getElem h, ?_⟩
  rw [← List.drop_eq_getElem_cons h, List.take_append_drop]

/-- What holds at each way to split a journal can be checked at each place. -/
theorem forall_split_iff {P : List Moment → Moment → List Moment → Prop} {ms : List Moment} :
    (∀ {later m earlier}, ms = later ++ m :: earlier → P later m earlier) ↔
      ∀ i < ms.length, ∀ m ∈ ms[i]?, P (ms.take i) m (ms.drop (i + 1)) := by
  constructor
  · intro h i hi m hm
    obtain ⟨m', hm', hsplit⟩ := exists_split_at ms hi
    obtain rfl := Option.some.inj (hm.symm.trans hm')
    exact h hsplit
  · rintro h later m earlier rfl
    have hplace := h later.length (by simp) m (by simp)
    simpa using hplace

/-- A world in which nothing has happened yet. -/
def emptyWorld : World := { host := { now := .epoch } }

theorem fresh_emptyWorld : emptyWorld.Fresh :=
  ⟨rfl, fun _ => rfl, fun _ => rfl, fun _ => rfl⟩

/-- The first callback cancels another timer, and the others do nothing. -/
def sampleBehaviour : Behaviour := fun key _ _ _ =>
  if key = 0 then .perform none (fun _ => .cancel 0 ⟨3⟩) fun _ => .finish .succeeded
  else .finish .succeeded

/-- A run to look at. While the host is idle, a repeating timer for second 2, a timer for second 5,
one for four idle seconds and one for second 6 are queued. Now it is second 10. -/
def waitingRun : Run :=
  performAll sampleBehaviour 1
    [.changeHost .goIdle,
      .schedule 0 (.instant (.ofSeconds 2)) (some (.ofSeconds 1)) ⟨0, none⟩ [],
      .schedule 0 (.instant (.ofSeconds 5)) none ⟨1, none⟩ [],
      .scheduleWhenIdle 0 (.relative (.ofSeconds 4)) false ⟨2, none⟩ [],
      .schedule 0 (.instant (.ofSeconds 6)) none ⟨3, none⟩ [],
      .changeHost (.setNow (.ofSeconds 10))]
    { world := { host := { now := .epoch } } }

/-- A pass fires the first of the timers, and its callback cancels the last one, which the pass has yet
to come to. A second pass fires the repeat, whose callback finds nothing to cancel. -/
def sampleRun : Run :=
  performAll sampleBehaviour 1 [.drain 0 (.named "main"), .drain 0 (.named "main")] waitingRun

theorem reachable_waitingRun : Reachable waitingRun :=
  (Reachable.start ⟨rfl, fun _ => rfl, fun _ => rfl, fun _ => rfl⟩).performAll _ _ _

theorem reachable_sampleRun : Reachable sampleRun := reachable_waitingRun.performAll _ _ _

-- What happens in them is computed by the kernel, so no tactic is to unfold them.
attribute [irreducible] waitingRun sampleRun

end Timekeeping
