import Timekeeping.Proofs.Laws.Conservation
import Timekeeping.Proofs.Run.Validity
import Timekeeping.Proofs.Time.Multiples

/-!
Validation and the way around it. Schedulers refuse intervals that are not positive and
negative idle delays, but setters and arming ask nothing, so queues are valid just as long
as programs arm valid timers. A timer with a positive interval moves on whenever it is fired
when it is due. So it is fired only so often while the clock stands, which a timer with an
interval of zero is not.
-/
namespace Timekeeping

/-- The instant for which the timer waits has come. -/
def World.DueOnClock (w : World) (t : TimerId) : Prop :=
  match (w.timer t).trigger with
  | some (.onClock key) => key.total ≤ w.host.now.total
  | _ => False

instance (w : World) (t : TimerId) : Decidable (w.DueOnClock t) := by
  unfold World.DueOnClock
  split
  · exact inferInstance
  · exact isFalse id

/-- What validation comes to in a run. Queues are valid at all moments just if what is armed is valid
when it is. A timer is made invalid only by a setter, of a setting that a scheduler would refuse. In
valid queues a repeating timer that is fired when it is due is queued again for a later instant, and
while the clock stands it is fired at most once for each interval that it is behind and once more. -/
structure Validates (r : Run) : Prop where
  validated_iff : (r.world.Validated ∧ ∀ m ∈ r.journal, m.world.Validated) ↔
    ∀ m ∈ r.journal, ∀ t, m.event.Arms t → (m.world.timer t).Valid
  bypassed : ∀ {later m earlier t}, r.journal = later ++ m :: earlier →
    ¬ (m.world.timer t).Valid → ∃ since m' p before, m :: earlier = since ++ m' :: p :: before ∧
      m'.event = .adjusted t ∧ ∃ setting, p.world.adjust t setting = .ok m'.world ∧
        ¬ setting.Admissible (p.world.timer t)
  advances : ∀ {later m p before s t kind callback call args key interval},
    r.journal = later ++ m :: p :: before → m.event = .started s t kind callback call args →
    p.world.Validated → (p.world.timer t).trigger = some (.onClock key) →
    (p.world.timer t).interval = some interval → key.total ≤ p.world.host.now.total →
    Ticks.Representable (p.world.host.now.total - key.total) →
    Ticks.Representable (p.world.host.now.total + interval.total) →
    ∃ key', (t, .onClock key') ∈ m.world.waiting s .active ∧ key.total < key'.total
  stops : ∀ {later between m before s t key interval},
    r.journal = later ++ (between ++ m :: before) → m.world.Validated →
    (t, .onClock key) ∈ m.world.waiting s .active → (m.world.timer t).interval = some interval →
    (∀ m' ∈ between, m'.world.host.now = m.world.host.now ∧ ¬ m'.event.Arms t) →
    (∀ {since m' earlier}, between = since ++ m' :: earlier → m'.event.Starts t →
      (m.world.endOf earlier).DueOnClock t) →
    (key.total ≤ m.world.host.now.total →
      Ticks.Representable (m.world.host.now.total - key.total)) →
    Ticks.Representable (m.world.host.now.total + interval.total) →
    starts t between ≤ (m.world.host.now.missed key interval + 1).toNat

/-- A timer has been started so often, and waits in no queue or for an instant from which on it cannot
be started more than `most` times. -/
structure Spends (t : TimerId) (interval : Duration) (now : Instant) (most count : Nat) (w : World) :
    Prop where
  count_le : count ≤ most
  next : (w.timer t).queued ≠ none → ∃ key, (w.timer t).trigger = some (.onClock key) ∧
    (w.timer t).interval = some interval ∧
    count + (now.missed key interval + 1).toNat ≤ most ∧
    (key.total ≤ now.total → Ticks.Representable (now.total - key.total))

variable {r : Run} {s : SchedulerId} {t : TimerId} {w w' w₁ w₂ : World} {e : Event} {key : Instant}
  {interval : Duration} {ms : List Moment} {most count : Nat}

namespace World

theorem Fresh.timer_valid (h : w.Fresh) (t : TimerId) : (w.timer t).Valid := by
  rw [h.timer]
  exact Timer.new_empty.valid

/-- A path to an invalid timer has a moment at which a setter made it invalid. -/
theorem Path.exists_setting (h : w₁.Path ms w₂) (ht : (w₁.timer t).Valid)
    (hinvalid : ¬ (w₂.timer t).Valid) :
    ∃ since m earlier, ms = since ++ m :: earlier ∧ m.event = .adjusted t ∧
      (w₁.endOf earlier).made t = true ∧ ∃ setting,
        (w₁.endOf earlier).adjust t setting = .ok m.world ∧
        ¬ setting.Admissible ((w₁.endOf earlier).timer t) := by
  induction h with
  | nil => exact absurd ht hinvalid
  | @cons rest w w' e hrest hstep ih =>
    by_cases hvalid : (w.timer t).Valid
    · obtain ⟨hevent, hmade, hsetting⟩ := hstep.exists_setting hvalid hinvalid
      refine ⟨[], ⟨e, w'⟩, rest, rfl, hevent, ?_⟩
      rw [hrest.endOf_eq]
      exact ⟨hmade, hsetting⟩
    · obtain ⟨since, m, earlier, rfl, hfacts⟩ := ih hvalid
      exact ⟨_ :: since, m, earlier, rfl, hfacts⟩

/-- What is armed waits in a queue then. -/
theorem Step.valid_of_arms (h : w.Step e w') (hw : w'.Sound) (hvalid : w'.Validated)
    (harms : e.Arms t) : (w'.timer t).Valid := by
  have hpending := h.pending_of_arms harms
  refine hw.validated_iff.mp hvalid t fun hout => ?_
  rw [pending_of_none hout] at hpending
  cases hpending

/-- A timer that is fired when it is due is queued again for a later instant, before which fewer of its
repeats lie. -/
theorem Step.moves_on {kind : QueueKind} {callback : Callback} {call : Nat} {args : List Json}
    (h : w.Step (.started s t kind callback call args) w') (hpositive : interval.IsPositive)
    (htrigger : (w.timer t).trigger = some (.onClock key))
    (hinterval : (w.timer t).interval = some interval)
    (hdue : key.total ≤ w.host.now.total)
    (hspan : Ticks.Representable (w.host.now.total - key.total))
    (hnext : Ticks.Representable (w.host.now.total + interval.total)) :
    ∃ key' : Instant, (t, .onClock key') ∈ w'.waiting s .active ∧
      (w'.timer t).trigger = some (.onClock key') ∧ (w'.timer t).interval = some interval ∧
      key.total < key'.total ∧
      w.host.now.missed key' interval < w.host.now.missed key interval := by
  obtain ⟨hrow, hwaits, -⟩ := h.requeued hinterval htrigger
  have hlater := lt_total_followingRepeat (w.scheduler s).config.maxRepeats (w.timer t).aligned
    hpositive hdue hspan hnext
  rw [hrow]
  exact ⟨_, hwaits, rfl, hinterval, hlater⟩

/-- What starts waits in a queue, and so has a positive interval where queues are valid. -/
theorem Step.later_key {kind : QueueKind} {callback : Callback} {call : Nat} {args : List Json}
    (h : w.Step (.started s t kind callback call args) w') (hw : w.Sound) (hvalid : w.Validated)
    (htrigger : (w.timer t).trigger = some (.onClock key))
    (hinterval : (w.timer t).interval = some interval) (hdue : key.total ≤ w.host.now.total)
    (hspan : Ticks.Representable (w.host.now.total - key.total))
    (hnext : Ticks.Representable (w.host.now.total + interval.total)) :
    ∃ key', (t, .onClock key') ∈ w'.waiting s .active ∧ key.total < key'.total := by
  have hqueued : (w.timer t).queued ≠ none := fun hout => (h.stays_out hw hout id).2 rfl
  have hpositive := (hw.validated_iff.mp hvalid t hqueued).positive htrigger hinterval
  obtain ⟨key', hwaits, -, -, hlater, -⟩ :=
    h.moves_on hpositive htrigger hinterval hdue hspan hnext
  exact ⟨key', hwaits, hlater⟩

end World

open World

/-- What is left to a timer is spent by firing it when it is due. -/
theorem Spends.step (h : Spends t interval w.host.now most count w) (hstep : w.Step e w')
    (hw : w.Sound) (hpositive : interval.IsPositive)
    (hnext : Ticks.Representable (w.host.now.total + interval.total)) (harms : ¬ e.Arms t)
    (hdue : e.Starts t → w.DueOnClock t) :
    Spends t interval w.host.now most (count + if e.Starts t then 1 else 0) w' := by
  by_cases hqueued : (w.timer t).queued = none
  · obtain ⟨hout, hstarts⟩ := hstep.stays_out hw hqueued harms
    rw [if_neg hstarts]
    exact ⟨h.count_le, fun hqueued' => absurd hout hqueued'⟩
  · obtain ⟨key, htrigger, hinterval, hleft, hspan⟩ := h.next hqueued
    by_cases hstarts : e.Starts t
    · rw [if_pos hstarts]
      have hpassed := hdue hstarts
      unfold World.DueOnClock at hpassed
      rw [htrigger] at hpassed
      have hmissed := (Instant.missed_nonneg_iff hpositive).mpr hpassed
      cases e with
      | started s u kind callback call args =>
        obtain rfl : u = t := hstarts
        obtain ⟨next, -, hrow, hsame, hlt, hfewer⟩ :=
          hstep.moves_on hpositive htrigger hinterval hpassed (hspan hpassed) hnext
        refine ⟨by omega, fun _ => ⟨next, hrow, hsame, by omega, fun hdue' => ?_⟩⟩
        exact .of_le_of_le (by decide) (Int.sub_nonneg.mpr hdue') (by omega) (hspan hpassed)
      | _ => exact hstarts.elim
    · rw [if_neg hstarts]
      have hadjusts : ¬ e.Adjusts t := by
        intro hadjusts
        cases hstep with
        | adjusted hadjust =>
          obtain rfl := Option.some.inj hadjusts
          exact hqueued (adjust_eq_ok hadjust).1
        | _ => cases hadjusts
      have hsame := hstep.settings hw (hw.made hqueued) hadjusts hstarts
      refine ⟨h.count_le, fun _ => ⟨key, ?_, ?_, hleft, hspan⟩⟩
      · exact hsame.trigger.trans htrigger
      · exact hsame.interval.trans hinterval

/-- While the clock stands, a timer is started at most as often as it was to be at first. -/
theorem Spends.path {now : Instant} (h : w₁.Path ms w₂) (hfirst : Spends t interval now most 0 w₁)
    (hw : w₁.Sound) (hpositive : interval.IsPositive)
    (hnext : Ticks.Representable (now.total + interval.total)) (hnow : w₁.host.now = now)
    (hstill : ∀ m ∈ ms, m.world.host.now = now ∧ ¬ m.event.Arms t)
    (hdue : ∀ {since m earlier}, ms = since ++ m :: earlier → m.event.Starts t →
      (w₁.endOf earlier).DueOnClock t) :
    w₂.host.now = now ∧ Spends t interval now most (starts t ms) w₂ := by
  induction h with
  | nil => exact ⟨hnow, hfirst⟩
  | @cons rest w w' e hrest hstep ih =>
    obtain ⟨hnow', hspends⟩ := ih (fun m hm => hstill m (List.mem_cons_of_mem _ hm))
      fun {since m earlier} hsplit => @hdue (⟨e, w'⟩ :: since) m earlier (by rw [hsplit]; rfl)
    obtain ⟨hlast, harms⟩ := hstill _ List.mem_cons_self
    subst hnow'
    refine ⟨hlast, ?_⟩
    rw [starts_cons]
    refine hspends.step hstep (hrest.sound hw).1 hpositive hnext harms fun hstarts => ?_
    have hdue' := @hdue [] _ _ rfl hstarts
    rw [hrest.endOf_eq] at hdue'
    exact hdue'

/-- The bound that the key sets under which the timer waits at first. -/
theorem World.Path.starts_le (h : w₁.Path ms w₂) (hw : w₁.Sound) (hvalid : w₁.Validated)
    (hwaits : (t, .onClock key) ∈ w₁.waiting s .active)
    (hinterval : (w₁.timer t).interval = some interval)
    (hstill : ∀ m ∈ ms, m.world.host.now = w₁.host.now ∧ ¬ m.event.Arms t)
    (hdue : ∀ {since m earlier}, ms = since ++ m :: earlier → m.event.Starts t →
      (w₁.endOf earlier).DueOnClock t)
    (hspan : key.total ≤ w₁.host.now.total →
      Ticks.Representable (w₁.host.now.total - key.total))
    (hnext : Ticks.Representable (w₁.host.now.total + interval.total)) :
    starts t ms ≤ (w₁.host.now.missed key interval + 1).toNat := by
  obtain ⟨hqueued, htrigger⟩ := hw.entry hwaits
  have hpositive := (hw.validated_iff.mp hvalid t (by simp [hqueued])).positive htrigger hinterval
  have hfirst : Spends t interval w₁.host.now (w₁.host.now.missed key interval + 1).toNat 0 w₁ :=
    ⟨Nat.zero_le _, fun _ => ⟨key, htrigger, hinterval, by omega, hspan⟩⟩
  exact (Spends.path h hfirst hw hpositive hnext rfl hstill hdue).2.count_le

/-- Whatever operations are performed and whatever callbacks do, what programs arm decides whether the
queues are valid, and valid repeating timers do not keep a loop busy while the clock stands. -/
theorem Reachable.validates (h : Reachable r) : Validates r := by
  obtain ⟨w, hfresh, hruns⟩ := h.exists_runsTo
  have hsound := hfresh.sound
  have hstart : w.Validated := hsound.validated_iff.mpr fun t _ => hfresh.timer_valid t
  constructor
  · constructor
    · intro hall m hm t harms
      obtain ⟨later, earlier, hsplit⟩ := List.append_of_mem hm
      obtain ⟨hpath, -⟩ := hruns.path_to hsplit
      have hm' := (hpath.sound hsound).1
      cases hpath with
      | cons hrest hstep => exact hstep.valid_of_arms hm' (hall.2 _ hm) harms
    · exact fun harmed => hruns.path.validated hsound hstart harmed
  · intro later m earlier t hsplit hinvalid
    obtain ⟨hpath, -⟩ := hruns.path_to hsplit
    obtain ⟨since, m', before, heq, hevent, hmade, hsetting⟩ :=
      hpath.exists_setting (hfresh.timer_valid t) hinvalid
    cases before with
    | nil => simp [World.endOf, World.made, hfresh.created] at hmade
    | cons p before => exact ⟨since, m', p, before, heq, hevent, hsetting⟩
  · intro later m p before s t kind callback call args key interval hsplit hevent hvalid htrigger
      hinterval hdue hspan hnext
    obtain ⟨hpath, -⟩ := hruns.path_to hsplit
    obtain ⟨event, world⟩ := m
    obtain rfl : event = _ := hevent
    cases hpath with
    | cons hrest hstep =>
      have hend := hrest.endOf_eq
      obtain rfl : p.world = _ := hend
      exact hstep.later_key (hrest.sound hsound).1 hvalid htrigger hinterval hdue hspan hnext
  · intro later between m before s t key interval hsplit hvalid hwaits hinterval hstill hdue hspan
      hnext
    obtain ⟨w', hbefore, hbetween⟩ := hruns.path_between hsplit
    exact hbetween.starts_le (hbefore.sound hsound).1 hvalid hwaits hinterval hstill hdue hspan hnext

/-- In the sample run schedulers set up all timers. The one that repeats every second is eight seconds
behind when the clock is set, and both passes after that fire it. -/
theorem validates_sampleRun :
    (sampleRun.world.Validated ∧ ∀ m ∈ sampleRun.journal, m.world.Validated) ∧
      ∃ m ∈ sampleRun.journal[23]?, m.world.host.now.missed (.ofSeconds 2) (.ofSeconds 1) = 8 ∧
        starts ⟨0⟩ (sampleRun.journal.take 23) = 2 ∧
        starts ⟨0⟩ (sampleRun.journal.take 23) ≤ 9 := by
  have hlaw := reachable_sampleRun.validates
  have hvalidated := hlaw.validated_iff.mpr (by decide +kernel)
  obtain ⟨m, hm, hjournal⟩ := exists_split_at sampleRun.journal (i := 23) (by decide +kernel)
  have hstart : ∀ m ∈ sampleRun.journal[23]?,
      (⟨0⟩, .onClock (.ofSeconds 2)) ∈ m.world.waiting 0 .active ∧
      (m.world.timer ⟨0⟩).interval = some (.ofSeconds 1) ∧
      m.world.host.now = .ofSeconds 10 := by decide +kernel
  obtain ⟨hwaits, hinterval, hnow⟩ := hstart m hm
  have hmissed : m.world.host.now.missed (.ofSeconds 2) (.ofSeconds 1) = 8 := by
    rw [hnow]
    decide +kernel
  have hstill : ∀ m' ∈ sampleRun.journal.take 23,
      m'.world.host.now = .ofSeconds 10 ∧ ¬ m'.event.Arms ⟨0⟩ := by decide +kernel
  have hdue : ∀ m ∈ sampleRun.journal[23]?, ∀ i < (sampleRun.journal.take 23).length,
      ∀ m' ∈ (sampleRun.journal.take 23)[i]?, m'.event.Starts ⟨0⟩ →
        (m.world.endOf ((sampleRun.journal.take 23).drop (i + 1))).DueOnClock ⟨0⟩ := by
    decide +kernel
  have hsplit : sampleRun.journal =
      [] ++ (sampleRun.journal.take 23 ++ m :: sampleRun.journal.drop 24) := hjournal
  have hstops := hlaw.stops hsplit (hvalidated.2 m (List.mem_of_getElem? hm)) hwaits hinterval
    (by rw [hnow]; exact hstill)
    (fun hsplit => (forall_split_iff (P := fun _ m' earlier => m'.event.Starts ⟨0⟩ →
      (m.world.endOf earlier).DueOnClock ⟨0⟩)).mpr (hdue m hm) hsplit)
    (by rw [hnow]; decide +kernel) (by rw [hnow]; decide +kernel)
  rw [hmissed] at hstops
  exact ⟨hvalidated, m, hm, hmissed, by decide +kernel, hstops⟩

section Unguarded

/-- A run to look at. Setters give one timer an interval of zero and another one a negative idle delay,
and move the idle delay of a third one, which a scheduler has set up, below zero. All three are armed.
Then three passes are made at second 2. -/
def unguardedRun : Run :=
  performAll (fun _ _ _ _ => .finish .succeeded) 1
    [.create,
      .adjust ⟨0⟩ (.time (.ofSeconds 1) (some .zero)),
      .adjust ⟨0⟩ (.function ⟨0, none⟩ []),
      .arm 0 ⟨0⟩ false,
      .create,
      .adjust ⟨1⟩ (.idleTime (.ofSeconds (-1)) false),
      .adjust ⟨1⟩ (.function ⟨0, none⟩ []),
      .armIdle 0 ⟨1⟩ true,
      .scheduleWhenIdle 0 (.relative (.ofSeconds 1)) false ⟨0, none⟩ [],
      .cancel 0 ⟨2⟩,
      .adjust ⟨2⟩ (.shift (.ofSeconds (-3))),
      .armIdle 0 ⟨2⟩ true,
      .changeHost (.setNow (.ofSeconds 2)),
      .drain 0 (.named "main"),
      .drain 0 (.named "main"),
      .drain 0 (.named "main")]
    { world := emptyWorld }

theorem reachable_unguardedRun : Reachable unguardedRun :=
  (Reachable.start fresh_emptyWorld).performAll _ _ _

attribute [irreducible] unguardedRun

/-- The queues hold all three timers as the setters left them. Each pass fires the first one, which
comes back under the same key. -/
theorem unguardedRun_not_validated : Reachable unguardedRun ∧ ¬ unguardedRun.world.Validated ∧
    (unguardedRun.world.timer ⟨0⟩).interval = some .zero ∧
    (unguardedRun.world.scheduler 0).idle.entries =
      [⟨.ofSeconds (-2), ⟨2⟩⟩, ⟨.ofSeconds (-1), ⟨1⟩⟩] ∧
    starts ⟨0⟩ unguardedRun.journal = 3 ∧
    ∀ m ∈ unguardedRun.journal, m.event.Starts ⟨0⟩ →
      m.world.host.now = .ofSeconds 2 ∧
        (⟨0⟩, .onClock (.ofSeconds 1)) ∈ m.world.waiting 0 .active := by
  refine ⟨reachable_unguardedRun, fun hvalidated => ?_, by decide +kernel, by decide +kernel,
    by decide +kernel, by decide +kernel⟩
  have hentry : ⟨.ofSeconds (-1), ⟨1⟩⟩ ∈ (unguardedRun.world.scheduler 0).idle.entries := by
    decide +kernel
  exact hvalidated.idle 0 _ hentry (by decide)

end Unguarded

end Timekeeping
