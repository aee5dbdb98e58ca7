import Timekeeping.Proofs.Laws.Conservation
import Timekeeping.Proofs.Run.Firings
import Timekeeping.Proofs.Run.Neighbours

/-!
Histories are the recent past. A firing is remembered when its callback starts, not when it is
over. So it stands before all firings that its callback makes and stays there however it ends,
and at every moment, inside callbacks too, the history is the beginning of the list of all
starts, the latest first.
-/
namespace Timekeeping

open Act

/-- The firing that begins at a moment, if one does in the scheduler. -/
def Moment.firing? (s : SchedulerId) (m : Moment) : Option Firing :=
  match m.event with
  | .started s' t kind callback _ _ =>
    if s' = s then some ⟨t.number, callback.name, kind, m.world.host.now⟩ else none
  | _ => none

/-- All firings that began in the scheduler, the latest first. -/
def firings (s : SchedulerId) (ms : List Moment) : List Firing := ms.filterMap (Moment.firing? s)

/-- The history of the scheduler holds the latest firings of the moments, as many as there is room
for. -/
structure World.Remembers (w : World) (s : SchedulerId) (depth : Nat) (ms : List Moment) : Prop where
  firings : (w.scheduler s).history.firings = (firings s ms).take depth
  nth : ∀ n, (w.scheduler s).history.nth? n =
    if n < depth then (Timekeeping.firings s ms)[n]? else none
  nth_eq_none_iff : ∀ n, (w.scheduler s).history.nth? n = none ↔
    (w.scheduler s).history.firings.length ≤ n

/-- The firing begins in this world: the timer waits in the queue of the scheduler that it tells, and has
the callback. -/
structure Firing.BeginsIn (f : Firing) (w : World) (s : SchedulerId) (t : TimerId)
    (callback : Callback) : Prop where
  told : f = ⟨t.number, callback.name, f.queue, w.host.now⟩
  waits : ∃ trigger, (t, trigger) ∈ w.waiting s f.queue
  callback : (w.timer t).callback = some callback

/-- What firings in this run add to the history of the scheduler, however they end. What is skipped
changes nothing. What is not is added, and firings that are nested in it come after it. -/
structure AddsFirings (call : Caller) (s : SchedulerId) (depth : Nat) (r : Run) : Prop where
  skipped : ∀ {t}, t ∉ (r.world.scheduler s).items → fire call s t r = .ok .skipped r
  started : ∀ {t kind trigger}, (t, trigger) ∈ r.world.waiting s kind → ∃ callback nested,
    (r.world.timer t).callback = some callback ∧
    firings s (after (fire call s t) r).journal =
      nested ++ ⟨t.number, callback.name, kind, r.world.host.now⟩ :: firings s r.journal ∧
    (after (fire call s t) r).world.Remembers s depth (after (fire call s t) r).journal

/-- At the end of a run that began in the world `w`, and at every moment before, the history of the
scheduler is the recent past, and what it tells is true. -/
structure Recollects (s : SchedulerId) (depth : Nat) (w : World) (r : Run) : Prop where
  now : r.world.Remembers s depth r.journal
  within : ∀ {later m earlier}, r.journal = later ++ m :: earlier →
    m.world.Remembers s depth (m :: earlier)
  told : ∀ {later m earlier f}, r.journal = later ++ m :: earlier → m.firing? s = some f →
    ∃ t callback, f.BeginsIn (w.endOf earlier) s t callback
  adds : ∀ behaviour nesting {later} {r₁ : Run}, r.journal = later ++ r₁.journal →
    r₁.world = w.endOf r₁.journal → AddsFirings (caller behaviour nesting) s depth r₁

variable {call : Caller} {s : SchedulerId} {t : TimerId} {w w' w₁ w₂ : World} {r : Run} {e : Event}
  {ms : List Moment} {past : List Firing} {depth : Nat} {start : World.Started}
  {f : Firing}

theorem firings_append (s : SchedulerId) (ms ms' : List Moment) :
    firings s (ms ++ ms') = firings s ms ++ firings s ms' := List.filterMap_append

theorem firings_cons_of_none {m : Moment} (h : m.firing? s = none) (ms : List Moment) :
    firings s (m :: ms) = firings s ms := List.filterMap_cons_none h

theorem firings_cons_of_some {m : Moment} (h : m.firing? s = some f) (ms : List Moment) :
    firings s (m :: ms) = f :: firings s ms := List.filterMap_cons_some h

/-- What was forgotten before does not come back. -/
theorem History.record_take (f : Firing) (past : List Firing) (depth : Nat) :
    History.record ⟨depth, past.take depth⟩ f = ⟨depth, (f :: past).take depth⟩ := by
  unfold History.record
  cases depth with
  | zero => rfl
  | succ n => simp [List.take_take]

namespace World

/-- A timer that is fired is remembered, with the queue in which it was found. -/
theorem history_of_take (h : w.take s t = .started start w') : (w'.scheduler s).history =
    (w.scheduler s).history.record ⟨t.number, start.callback.name, start.kind, w.host.now⟩ := by
  have hhost := (SameFrame.withdraw w s t start.kind).host
  have hleft : ((w.withdraw s t start.kind).scheduler s).history = (w.scheduler s).history :=
    beside_withdraw Scheduler.beside_history w s t start.kind
  rw [(begun_of_take h).world, scheduler_setScheduler, if_pos rfl, hleft, hhost]

theorem history_setContext (w : World) (s s' : SchedulerId) (context : Context) :
    ((w.setScheduler s { w.scheduler s with context }).scheduler s').history =
      (w.scheduler s').history := by
  rw [scheduler_setScheduler]
  split
  · subst s'
    rfl
  · rfl

theorem history_settle (w : World) (s s' : SchedulerId) (t : TimerId) (start : Started) :
    ((w.settle s t start).scheduler s').history = (w.scheduler s').history := by
  obtain heq | heq := settle_cases w s t start
  · rw [heq, history_setContext]
  · rw [heq, scheduler_setTimer, history_setContext]

/-- A step adds to the history what begins with it, and nothing else. -/
theorem Step.history (h : w.Step e w') (s : SchedulerId) : (w'.scheduler s).history =
    match (⟨e, w'⟩ : Moment).firing? s with
    | some f => (w.scheduler s).history.record f
    | none => (w.scheduler s).history := by
  have hbeside := Scheduler.beside_history
  cases h with
  | adjusted hadjust =>
    obtain ⟨-, r, -, rfl⟩ := adjust_eq_ok hadjust
    rfl
  | armed s' triggered hrow hmade => exact beside_enqueue hbeside w _ _ _ _
  | scheduled s' triggered hr => exact beside_enqueue hbeside _ _ _ _ _
  | cancelled s' hts => exact beside_cancelAll hbeside w _ _
  | idleStarted s' => exact congrArg Scheduler.history (scheduler_rouse w _ s)
  | contextChanged s' context => exact history_setContext w s' s context
  | @started s' t start w₁ htake =>
    have hhost := (SameFrame.take htake).host
    by_cases hs : s' = s
    · subst hs
      have hremembered := history_of_take htake
      simp only [Moment.firing?, if_true, hhost]
      exact hremembered
    · simp only [Moment.firing?, if_neg hs]
      obtain ⟨kind, S, -, -, -, -, rfl⟩ := take_eq_started htake
      change (((w.withdraw s' t kind).setScheduler s' S).scheduler s).history = _
      rw [scheduler_setScheduler, if_neg hs, scheduler_withdraw_of_ne hs]
  | settled s' t start => exact history_settle w s' s t start
  | emptied htake =>
    obtain ⟨kind, -, -, rfl⟩ := take_eq_idle htake
    exact beside_withdraw hbeside w _ _ kind
  | _ => rfl

/-- Along a path the firings that begin are put before those of the past. -/
theorem Path.history (h : w₁.Path ms w₂)
    (hpast : (w₁.scheduler s).history = ⟨depth, past.take depth⟩) :
    (w₂.scheduler s).history = ⟨depth, (firings s ms ++ past).take depth⟩ := by
  induction h with
  | nil => exact hpast
  | @cons ms w₁ w₂ e _ hstep ih =>
    rw [hstep.history, ih]
    cases hfiring : (⟨e, w₂⟩ : Moment).firing? s with
    | none => rw [firings_cons_of_none hfiring]
    | some f =>
      rw [firings_cons_of_some hfiring]
      exact History.record_take f _ depth

theorem remembers_of_history (h : (w.scheduler s).history = ⟨depth, (firings s ms).take depth⟩) :
    w.Remembers s depth ms := by
  refine ⟨by rw [h], fun n => ?_, fun n => List.getElem?_eq_none_iff⟩
  rw [h]
  exact List.getElem?_take

/-- What begins with a step is a firing of a timer that has waited until then. -/
theorem Step.begins (h : w.Step e w') (hf : (⟨e, w'⟩ : Moment).firing? s = some f) :
    ∃ t callback, f.BeginsIn w s t callback := by
  cases h with
  | @started s' t start w₁ htake =>
    by_cases hs : s' = s
    · subst hs
      have hhost := (SameFrame.take htake).host
      simp only [Moment.firing?, if_true, hhost, Option.some.injEq] at hf
      subst hf
      have hbegun := begun_of_take htake
      obtain ⟨-, hwaits⟩ := (queueOf?_eq_some_iff w s' t _).mp hbegun.queue
      exact ⟨t, start.callback, rfl, hwaits, hbegun.callback⟩
    · simp [Moment.firing?, hs] at hf
  | _ => cases hf

end World

/-- A firing adds its own start and the moments of its callback, and its end if the callback comes
back. -/
theorem exists_moments_fire (hcall : call.Keeps (Run.Continues none))
    (htake : r.world.take s t = .started start w) : ∃ ms nested,
      (after (fire call s t) r).journal = ms ++ r.journal ∧
      r.world.Path ms (after (fire call s t) r).world ∧
      firings s ms = nested ++ [⟨t.number, start.callback.name, start.kind, r.world.host.now⟩] := by
  obtain ⟨ms, hinvokes⟩ := invokes_of_take hcall htake
  obtain ⟨first, hfirst, hbegins, hstart⟩ : ∃ first : Moment,
      (r.starting s t start w).journal = first :: r.journal ∧
      r.world.Path [first] (r.starting s t start w).world ∧ first.firing? s =
        some ⟨t.number, start.callback.name, start.kind, r.world.host.now⟩ := by
    refine ⟨_, rfl, .cons .nil (.started htake), ?_⟩
    simp [Moment.firing?, (World.SameFrame.take htake).host]
  have hms : firings s (ms ++ [first]) =
      firings s ms ++ [⟨t.number, start.callback.name, start.kind, r.world.host.now⟩] := by
    rw [firings_append, firings_cons_of_some hstart]
    rfl
  rw [← after_shield _ (w.scheduler s).config.catchPanics] at hinvokes
  have hpath := hbegins.append hinvokes.path
  have hjournal := hinvokes.journal
  rw [hfirst, ← List.singleton_append, ← List.append_assoc] at hjournal
  unfold after at hpath hjournal ⊢
  rw [fire_of_take htake]
  cases hshield : shield (w.scheduler s).config.catchPanics
      (call s start.callback (w.calls.get start.callback.key) start.args)
      (r.starting s t start w) with
  | ok ending back =>
    rw [hshield] at hpath hjournal
    -- The end of the firing comes after all that is nested in it, and nothing begins with it.
    let last : Moment := ⟨.settled s t start.again, back.world.settle s t start⟩
    refine ⟨last :: (ms ++ [first]), firings s ms, congrArg (last :: ·) hjournal,
      .cons hpath (.settled s t start), ?_⟩
    rw [firings_cons_of_none rfl, hms]
  | error i back =>
    rw [hshield] at hpath hjournal
    exact ⟨ms ++ [first], firings s ms, hjournal, hpath, hms⟩

section Run

variable {config : Config} {offset : Int}

theorem remembers_of_path (hbuilt : w.scheduler s = .ofConfig config offset) (h : w.Path ms w') :
    w'.Remembers s config.historyDepth.toNat ms := by
  have hempty : (w.scheduler s).history =
      ⟨config.historyDepth.toNat, ([] : List Firing).take config.historyDepth.toNat⟩ := by
    rw [hbuilt]
    simp [Scheduler.ofConfig]
  refine World.remembers_of_history ?_
  rw [h.history hempty, List.append_nil]

/-- The past of a run may be that of a longer run, up to a moment in it. -/
theorem adds_of_path (hfresh : w.Fresh) (hbuilt : w.scheduler s = .ofConfig config offset)
    (h : w.Path r.journal r.world) (behaviour : Behaviour) (nesting : Nat) :
    AddsFirings (caller behaviour nesting) s config.historyDepth.toNat r := by
  have hsound := (h.sound hfresh.sound).1
  constructor
  · intro t ht
    have habsent : r.world.queueOf? s t = none := by
      by_contra hne
      exact ht (hsound.mem_items_iff.mpr hne)
    exact fire_of_absent _ habsent
  · intro t kind trigger hmem
    obtain ⟨start, w₁, htake⟩ := hsound.exists_take_eq_started hmem
    have hbegun := World.begun_of_take htake
    obtain ⟨ms, nested, hjournal, hpath, hfirings⟩ :=
      exists_moments_fire (keeps_continues behaviour nesting) htake
    obtain rfl : kind = start.kind := Option.some.inj
      ((hsound.queueOf?_eq hmem).symm.trans hbegun.queue)
    refine ⟨start.callback, nested, hbegun.callback, ?_, ?_⟩
    · rw [hjournal, firings_append, hfirings, List.append_assoc]
      rfl
    · rw [hjournal]
      exact remembers_of_path hbuilt (h.append hpath)

/-- Whatever its settings are, a scheduler remembers of every run what it has fired last. -/
theorem World.RunsTo.recollects (h : w.RunsTo r) (hfresh : w.Fresh)
    (hbuilt : w.scheduler s = .ofConfig config offset) :
    Recollects s config.historyDepth.toNat w r where
  now := remembers_of_path hbuilt h.path
  within hjournal := remembers_of_path hbuilt (h.path_to hjournal).1
  told {later m earlier f} hjournal hf := by
    obtain ⟨hpath, -⟩ := h.path_to hjournal
    cases hpath with
    | cons hrest hstep =>
      rw [hrest.endOf_eq]
      exact hstep.begins hf
  adds behaviour nesting {later r₁} hjournal hworld := by
    have hpath := h.path
    rw [hjournal] at hpath
    obtain ⟨w₁, hearlier, -⟩ := hpath.split
    refine adds_of_path hfresh hbuilt ?_ behaviour nesting
    rw [hworld, hearlier.endOf_eq]
    exact hearlier

end Run

section Nested

/-- The first callback sets the clock, fires the second timer and fails. The second one panics. -/
def nesting : Behaviour := fun key _ _ _ =>
  if key = 0 then
    .perform none (fun _ => .changeHost (.setNow (.ofSeconds 8))) fun _ =>
    .perform none (fun _ => .fire 0 ⟨1⟩) fun _ => .finish (.failed "no luck")
  else if key = 1 then .panic (.literal "no luck")
  else .finish .succeeded

/-- A world in which the first scheduler remembers two firings and the second one none. -/
def nestingWorld : World :=
  { host := { now := .epoch }
    schedulers := Table.set (Table.set {} 0 (.ofConfig { historyDepth := 2 } 0)) 1
      (.ofConfig { historyDepth := 0 } 0) }

theorem fresh_nestingWorld : nestingWorld.Fresh := by
  refine ⟨rfl, fun _ => rfl, fun s => ?_, fun s => ?_⟩
  all_goals
    unfold World.scheduler nestingWorld
    rw [Table.get_set, Table.get_set]
    split
    · rfl
    · split <;> rfl

/-- A run to look at. At second 5 a timer for idleness is fired, and then the first timer, whose callback
fires the second one. What it fires is not in the queue any more when it is to be fired once more. -/
def nestingRun : Run :=
  performAll nesting 2
    [.schedule 0 (.instant (.ofSeconds 1)) none ⟨0, some "outer"⟩ [],
      .schedule 0 (.instant (.ofSeconds 2)) none ⟨1, some "inner"⟩ [],
      .scheduleWhenIdle 0 (.relative (.ofSeconds 3)) false ⟨2, none⟩ [],
      .schedule 1 (.instant (.ofSeconds 4)) none ⟨2, none⟩ [],
      .changeHost (.setNow (.ofSeconds 5)),
      .fire 0 ⟨2⟩, .fire 1 ⟨3⟩, .fire 0 ⟨0⟩, .fire 0 ⟨1⟩]
    { world := nestingWorld }

theorem nestingWorld_runsTo : nestingWorld.RunsTo nestingRun :=
  World.RunsTo.start.performAll _ _ _

attribute [irreducible] nestingRun

/-- Three firings began in the first scheduler. It has forgotten the first of them, and the second
scheduler remembers nothing. -/
theorem recollects_nestingRun :
    nestingRun.world.Remembers 0 2 nestingRun.journal ∧
    nestingRun.world.Remembers 1 0 nestingRun.journal ∧
    firings 0 nestingRun.journal =
      [⟨2, some "inner", .active, .ofSeconds 8⟩, ⟨1, some "outer", .active, .ofSeconds 5⟩,
        ⟨3, none, .idle, .ofSeconds 5⟩] ∧
    firings 1 nestingRun.journal = [⟨4, none, .active, .ofSeconds 5⟩] := by
  have hfirst : nestingWorld.scheduler 0 = .ofConfig { historyDepth := 2 } 0 := rfl
  have hsecond : nestingWorld.scheduler 1 = .ofConfig { historyDepth := 0 } 0 := rfl
  exact ⟨(nestingWorld_runsTo.recollects fresh_nestingWorld hfirst).now,
    (nestingWorld_runsTo.recollects fresh_nestingWorld hsecond).now, by decide +kernel,
    by decide +kernel⟩

end Nested

end Timekeeping
