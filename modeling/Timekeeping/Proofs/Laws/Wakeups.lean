import Timekeeping.Proofs.Run.Rounds
import Timekeeping.Proofs.Time.Repeats
import Mathlib.Order.Bounds.Basic

/-!
A poller wakes up in time. After a pass that fired a timer it does not sleep, since that
one may be due again. After one that fired nothing, the queues are those that the pass
saw, and it sleeps no longer than until the first of their live timers is due.
-/
namespace Timekeeping

open Act

namespace World

/-- How long it is until a trigger by the host's clock or idle time, in picoseconds. An idle
trigger is not ahead while the host is busy. -/
def lead? (w : World) : Trigger → Option Int
  | .onClock time => some (time.total - w.host.now.total)
  | .afterIdle delay => w.host.idleFor?.map fun idleFor => delay.total - idleFor.total

/-- How long it is by the host of the world `w` until each of the timers that are live in the world
`w'`. -/
def leads (w w' : World) (s : SchedulerId) : Set Int :=
  {n | ∃ x, w'.Ready s x ∧ w.lead? x.2 = some n}

end World

/-- A pass over a scheduler that begins in the world `w` and ends in the world `w'` gives a report by
which a poller does not sleep past a live timer. Where the pass fired nothing, the report names the
time until the first of them. -/
structure WakesInTime (w w' : World) (s : SchedulerId) (report : PassReport) : Prop where
  bounded : ∀ maxPollMillis,
    Poller.sleepNanos report maxPollMillis ≤ maxPollMillis * Poller.nanosPerMilli
  soon : ∀ maxPollMillis, ∀ n ∈ w.leads w' s,
    (Poller.sleepNanos report maxPollMillis * 1000 : Int) ≤ max 0 n
  positive : report.fired = 0 → ∀ n ∈ w.leads w' s, 0 < n
  none_iff : report.fired = 0 → (report.untilNext = none ↔ w.leads w' s = ∅)
  least : report.fired = 0 → (∀ n ∈ w.leads w' s, Ticks.Representable n) →
    ∀ d ∈ report.untilNext, IsLeast (w.leads w' s) d.total

variable {call : Caller} {pass : Nat} {s : SchedulerId} {kind : QueueKind} {loop : LoopId}
  {p q : Snapshot} {next : Snapshot.Pick} {cs : List FireCall} {report : PassReport}
  {untilNext : Option Duration} {w w' : World} {r r' stop : Run} {x : TimerId × Trigger} {n : Int}

/-- Fractions of a nanosecond are cut off. -/
theorem Duration.toNanos?_eq {d : Duration} (h : d.IsPositive) (hnormal : d.Normal) :
    d.toNanos? = some (d.total / 1000).toNat := by
  have hsecs := (isPositive_iff d).mp h
  have hpicos : (d.picos.toNat : Int) < picosPerSecond := hnormal
  have htotal : d.total = d.secs.toInt * picosPerSecond + d.picos.toNat := rfl
  have hnegative : ¬ d.IsNegative := by
    unfold IsNegative
    rw [Int64.lt_iff_toInt_lt, Int64.toInt_zero]
    omega
  unfold picosPerSecond at hpicos htotal
  have hnanos : d.picos.toNat / 1000 ≤ 4294967295 := by omega
  unfold toNanos?
  dsimp only
  rw [if_neg (not_or.mpr ⟨hnegative, Nat.not_lt.mpr hnanos⟩), htotal]
  congr 1
  omega

namespace Poller

theorem sleepNanos_le (report : PassReport) (maxPollMillis : Nat) :
    sleepNanos report maxPollMillis ≤ maxPollMillis * nanosPerMilli := by
  unfold sleepNanos
  split
  · exact Nat.zero_le _
  · split
    · exact Nat.min_le_right _ _
    · exact Nat.le_refl _

/-- There is no sleep beyond the time until the next timer. -/
theorem sleepNanos_le_total {d : Duration} (hnext : report.untilNext = some d) (hd : d.IsPositive)
    (hnormal : d.Normal) (maxPollMillis : Nat) :
    (sleepNanos report maxPollMillis * 1000 : Int) ≤ d.total := by
  have htotal := hd.total_pos
  unfold sleepNanos
  split
  · omega
  · rw [hnext, Option.bind_some, d.toNanos?_eq hd hnormal]
    dsimp only
    omega

end Poller

namespace Snapshot

/-- What is picked and has to wait is not due after any other timer. -/
theorem Takes.total_le (h : q.Takes next)
    (hsorted : (q.marks kind).Pairwise fun a b => q.lead a.2 ≤ q.lead b.2)
    (hwait : next.wait.IsPositive) (hx : x ∈ q.marks kind) : next.wait.total ≤ q.lead x.2 := by
  obtain ⟨y, hy, hmem, hle⟩ := exists_head hsorted hx
  have hfirst := h.first kind y hy
  have hnormal : next.wait.Normal := by
    rw [h.wait_eq]
    exact Ticks.ofTotal_normal _
  have hpositive : 0 < q.lead y.2 := (Duration.isPositive_ofTotal _).mp (hwait.mono hfirst)
  calc next.wait.total ≤ (q.wait y.2).total := Ticks.total_le_total hnormal hfirst
    _ ≤ q.lead y.2 := Ticks.total_ofTotal_le hpositive.le
    _ ≤ q.lead x.2 := hle

/-- A trigger of a queue is ahead by its lead in the snapshot, if that holds it. -/
theorem lead?_eq_some_iff (hx : x ∈ w.waiting s x.2.kind) :
    w.lead? x.2 = some n ↔ x ∈ (ofWorld w s w.host.idleFor?).marks x.2.kind ∧
      (ofWorld w s w.host.idleFor?).lead x.2 = n := by
  obtain ⟨t, trigger⟩ := x
  cases trigger with
  | onClock time =>
    have hmark : (t, .onClock time) ∈ (ofWorld w s w.host.idleFor?).marks .active := hx
    exact Option.some_inj.trans (and_iff_right hmark).symm
  | afterIdle delay =>
    unfold World.lead?
    cases hidle : w.host.idleFor? with
    | none =>
      have hmark : (t, .afterIdle delay) ∉ (ofWorld w s none).marks .idle := List.not_mem_nil
      exact iff_of_false nofun fun h => hmark h.1
    | some idleFor =>
      have hmark : (t, .afterIdle delay) ∈ (ofWorld w s (some idleFor)).marks .idle := hx
      exact Option.some_inj.trans (and_iff_right hmark).symm

/-- The leads of live timers are those of the entries that are left when others are passed over. -/
theorem mem_leads_iff (hw : w.Sound) : n ∈ w.leads w s ↔
    ∃ kind, ∃ x ∈ ((ofWorld w s w.host.idleFor?).skip w).marks kind,
      w.Live x ∧ (ofWorld w s w.host.idleFor?).lead x.2 = n := by
  constructor
  · rintro ⟨x, hready, hlead⟩
    obtain ⟨hmark, hn⟩ := (lead?_eq_some_iff hready.2).mp hlead
    have hlive := hready.live hw
    rcases stale_or_mem_skip w hmark with ⟨-, hdead⟩ | hleft
    · exact absurd hlive hdead
    · exact ⟨x.2.kind, x, hleft, hlive, hn⟩
  · rintro ⟨kind, x, hleft, hlive, hn⟩
    have hmark := ((skip_within _ w).sublist kind).subset hleft
    obtain rfl := kind_of_mem_marks hmark
    have hwaits := (marks_ofWorld_sublist _ _ _ _).subset hmark
    exact ⟨x, ⟨hlive.1, hwaits⟩, (lead?_eq_some_iff hwaits).mpr ⟨hmark, hn⟩⟩

theorem nextWait?_of_size_eq_zero (w : World) (h : p.size = 0) : p.nextWait? w = none := by
  unfold size at h
  have hactive : p.active = [] := List.length_eq_zero_iff.mp (by omega)
  have hidle : p.idle = [] := List.length_eq_zero_iff.mp (by omega)
  simp [nextWait?, skip, pick?, pickActive?, pickIdle?, hactive, hidle]

/-- If no entry is next, no timer is live. -/
theorem leads_eq_empty (hw : w.Sound) (h : (ofWorld w s w.host.idleFor?).nextWait? w = none) :
    w.leads w s = ∅ := by
  have hobserved := (skip_within _ w).observed (observed_ofWorld w s w.host.idleFor?)
  have hpick := Option.map_eq_none_iff.mp h
  rw [Set.eq_empty_iff_forall_notMem]
  intro n hn
  obtain ⟨kind, x, hleft, -⟩ := (mem_leads_iff hw).mp hn
  rw [marks_of_pick?_eq_none hobserved hpick] at hleft
  cases hleft

/-- What is known of the time until the next live timer, when none is due. -/
structure Foretells (ns : Set Int) (d : Duration) : Prop where
  le : ∀ n ∈ ns, d.total ≤ n
  positive : ∀ n ∈ ns, 0 < n
  attained : ∃ n ∈ ns, d = .ofTotal n

theorem foretells (hw : w.Sound) (hnormal : (ofWorld w s w.host.idleFor?).Normal) {d : Duration}
    (h : (ofWorld w s w.host.idleFor?).nextWait? w = some d) (hd : d.IsPositive) :
    Foretells (w.leads w s) d := by
  obtain ⟨next, hpick, rfl⟩ := Option.map_eq_some_iff.mp h
  have hskip := skip_within (ofWorld w s w.host.idleFor?) w
  have hobserved := observed_ofWorld w s w.host.idleFor?
  have hsorted := hskip.sorted (sorted_ofWorld w s _ hw hnormal)
  obtain ⟨htakes, -⟩ := takes_of_skip hobserved hpick
  refine ⟨fun n hn => ?_, fun n hn => ?_, _, (mem_leads_iff hw).mpr
    ⟨_, _, htakes.mem, live_of_skip_eq_cons htakes.front, rfl⟩, ?_⟩
  · obtain ⟨kind, x, hleft, -, rfl⟩ := (mem_leads_iff hw).mp hn
    rw [← hskip.lead]
    exact htakes.total_le (hsorted kind) hd hleft
  · obtain ⟨kind, x, hleft, -, rfl⟩ := (mem_leads_iff hw).mp hn
    rw [← hskip.lead]
    exact htakes.positive (hsorted kind) hd hleft
  · rw [htakes.wait_eq, wait, hskip.lead]

end Snapshot

namespace Serves

/-- A pass that counts no firing has made no call: what it picks first still waits, so the callback
would have started. -/
theorem quiet (h : Serves call pass s r p cs (.ok untilNext) stop) (hw : r.world.Sound)
    (hobserved : p.Observed) (hwaits : ∀ kind, ∀ x ∈ p.marks kind, x ∈ r.world.waiting s kind)
    (hquiet : (cs.countP fun c => !c.skipped call s) = 0) :
    stop.world = r.world ∧ untilNext = p.nextWait? r.world ∧ ∀ d ∈ untilNext, d.IsPositive := by
  cases h with
  | spent hsize => exact ⟨rfl, (Snapshot.nextWait?_of_size_eq_zero _ hsize).symm, nofun⟩
  | stopped hstop =>
    refine ⟨rfl, rfl, fun d hd => ?_⟩
    obtain ⟨next, hpick, rfl⟩ := Option.map_eq_some_iff.mp hd
    exact hstop next hpick
  | @turned _ _ _ _ next _ cs _ hpick =>
    have hskip := p.skip_within r.world
    have hmark := (hskip.sublist _).subset
      (Snapshot.takes_of_pick? (hskip.observed hobserved) hpick).mem
    obtain ⟨-, hcounts⟩ := FireCall.starts_of_waiting
      (c := next.call (r.picking pass s p next)) call hw (hwaits _ _ hmark)
    rw [List.countP_cons, hcounts] at hquiet
    simp at hquiet

end Serves

/-- The report of a pass that counts no firing is about the world in which the pass began. -/
theorem drain_quiet (h : drain call s loop r = .ok report r') (hw : r.world.Sound)
    (hquiet : report.fired = 0) : r'.world = r.world.observed s loop ∧
      report.untilNext = (r.snapshot s loop).nextWait? (r.world.observed s loop) ∧
      ∀ d ∈ report.untilNext, d.IsPositive := by
  obtain ⟨cs, stop, hserves, hfired, rfl⟩ := serves_of_drain h
  exact hserves.quiet (hw.observed s loop) (Snapshot.observed_ofWorld _ _ _)
    (fun kind x hx => (Snapshot.marks_ofWorld_sublist _ _ _ kind).subset hx) (hfired ▸ hquiet)

/-- The time to sleep after a pass is that until the first live timer, or less. -/
theorem wakesInTime_of_drain (h : drain call s loop r = .ok report r') (hr : r.world.Sound)
    (hnormal : (r.snapshot s loop).Normal) :
    WakesInTime (r.world.observed s loop) r'.world s report := by
  by_cases hquiet : report.fired = 0
  · have hw := hr.observed s loop
    obtain ⟨hworld, hnext, hpositive⟩ := drain_quiet h hr hquiet
    rw [hworld]
    cases huntil : report.untilNext with
    | none =>
      have hempty := Snapshot.leads_eq_empty hw (hnext.symm.trans huntil)
      constructor
      · exact Poller.sleepNanos_le report
      all_goals simp [hempty, huntil]
    | some d =>
      have hd := hpositive d huntil
      have hforetells := Snapshot.foretells hw hnormal (hnext.symm.trans huntil) hd
      obtain ⟨n, hn, rfl⟩ := hforetells.attained
      refine ⟨Poller.sleepNanos_le report, fun maxPollMillis m hm => ?_,
        fun _ => hforetells.positive, fun _ => ?_, fun _ hstored d hd => ?_⟩
      · have hsleep := Poller.sleepNanos_le_total huntil hd (Ticks.ofTotal_normal n) maxPollMillis
        have hle := hforetells.le m hm
        omega
      · rw [huntil]
        exact iff_of_false nofun (Set.nonempty_of_mem hn).ne_empty
      · obtain rfl := Option.some.inj (huntil.symm.trans hd)
        have htotal : (Duration.ofTotal n).total = n := Ticks.total_ofTotal (hstored n hn)
        rw [htotal]
        refine ⟨hn, fun m hm => ?_⟩
        have hle := hforetells.le m hm
        rw [htotal] at hle
        exact hle
  · have hnone : ∀ maxPollMillis, Poller.sleepNanos report maxPollMillis = 0 := fun maxPollMillis =>
      if_pos (Nat.pos_of_ne_zero hquiet)
    refine ⟨Poller.sleepNanos_le report, fun maxPollMillis m hm => ?_,
      fun h => absurd h hquiet, fun h => absurd h hquiet, fun h => absurd h hquiet⟩
    rw [hnone]
    omega

/-- Whatever callbacks do, who sleeps by the report that a pass returns does not sleep past a timer
that the pass has left live. A poller sleeps so after each of its passes. -/
theorem Run.Founded.wakes_in_time (h : r.Founded) (behaviour : Behaviour) (depth : Nat)
    (s : SchedulerId) :
    (∀ loop, ∃ cs, Drains (caller behaviour depth) s loop r cs ∧ ((r.snapshot s loop).Normal →
      ∀ report r', drain (caller behaviour depth) s loop r = .ok report r' →
        WakesInTime (r.world.observed s loop) r'.world s report)) ∧
    ∀ stop cues, r.world.polling = false → ∃ rounds last,
      Poller.Polls (caller behaviour depth) s (r.world.scheduler s).config.maxPollMillis.toNat
        Poller.passLimit 0 false cues (Poller.start s stop r) rounds last ∧
      after (Poller.run (caller behaviour depth) s stop cues) r =
        last.advance (.pollEnded s) { last.world with polling := false } ∧
      ∀ o ∈ rounds, (o.begun.snapshot s .poller).Normal →
        WakesInTime (o.begun.world.observed s .poller) o.ended.world s o.report := by
  refine ⟨fun loop => ?_, fun stop cues hfree => ?_⟩
  · obtain ⟨cs, -, -, hdrains, -⟩ := exists_serves (caller behaviour depth) s loop r
    exact ⟨cs, hdrains, fun hnormal report r' hdrain => wakesInTime_of_drain hdrain h.sound.1 hnormal⟩
  · obtain ⟨rounds, last, hpolls, hrun⟩ :=
      Poller.polls_run (caller behaviour depth) s stop cues hfree
    have hfounded := hpolls.founded (Poller.founded_start h s stop)
    refine ⟨rounds, last, hpolls, hrun, fun o ho hnormal => ?_⟩
    exact wakesInTime_of_drain (hpolls.drain_eq ho) (hfounded o ho).sound.1 hnormal

/-- A run to look at. The host goes idle at the epoch, timers for four idle seconds and for second 5 are
queued, and it is second 2. -/
def pendingRun : Run :=
  performAll (fun _ _ _ _ => .finish .succeeded) 1
    [.changeHost .goIdle,
      .scheduleWhenIdle 0 (.relative (.ofSeconds 4)) false ⟨0, none⟩ [],
      .schedule 0 (.instant (.ofSeconds 5)) none ⟨1, none⟩ [],
      .changeHost (.setNow (.ofSeconds 2))]
    { world := emptyWorld }

theorem reachable_pendingRun : Reachable pendingRun :=
  (Reachable.start fresh_emptyWorld).performAll _ _ _

attribute [irreducible] pendingRun

/-- A pass over its scheduler. Nothing is due, and the first timer is next, in two idle seconds. -/
def pendingPass : Act PassReport :=
  drain (caller (fun _ _ _ _ => .finish .succeeded) 1) 0 (.named "main")

theorem pendingPass_pendingRun :
    pendingPass pendingRun = .ok ⟨0, some (.ofSeconds 2)⟩ (after pendingPass pendingRun) :=
  eq_ok_of_answer (by decide +kernel)

theorem representable_pendingRun :
    ∀ n ∈ (pendingRun.world.observed 0 (.named "main")).leads (after pendingPass pendingRun).world 0,
      Ticks.Representable n := by
  have hstored : ∀ x ∈ (after pendingPass pendingRun).world.waiting 0 .active ++
      (after pendingPass pendingRun).world.waiting 0 .idle,
      ∀ n ∈ (pendingRun.world.observed 0 (.named "main")).lead? x.2, Ticks.Representable n := by
    decide +kernel
  rintro n ⟨x, hready, hlead⟩
  refine hstored x ?_ n hlead
  cases hkind : x.2.kind with
  | active => exact List.mem_append_left _ (hkind ▸ hready.2)
  | idle => exact List.mem_append_right _ (hkind ▸ hready.2)

/-- A poller makes a pass and sleeps. -/
theorem exists_round_pendingRun {passes : Nat} {rounds : List Poller.Round} {last : Run}
    (h : Poller.Polls (caller (fun _ _ _ _ => .finish .succeeded) 1) 0
      (pendingRun.world.scheduler 0).config.maxPollMillis.toNat (passes + 1) 0 false [⟨1, .drop⟩]
      (Poller.start 0 false pendingRun) rounds last) :
    ∃ o ∈ rounds, o.begun = Poller.start 0 false pendingRun := by
  cases h with
  | told hstop => exact absurd hstop (by decide +kernel)
  | stopped hgoes htold =>
    have hstop := htold (by decide +kernel)
    exact absurd hstop (by decide +kernel)
  | ended hgoes hdrain hwaits hsleeps hend => exact ⟨_, List.mem_cons_self, rfl⟩
  | round hgoes hdrain hwaits hsleeps hlives hrest => exact ⟨_, List.mem_cons_self, rfl⟩

/-- Who sleeps by the report wakes up within two seconds. So does a poller that can be told nothing any
more from the first millisecond on. -/
theorem wakes_in_time_pendingRun : ∃ r',
    pendingPass pendingRun = .ok ⟨0, some (.ofSeconds 2)⟩ r' ∧
    IsLeast ((pendingRun.world.observed 0 (.named "main")).leads r'.world 0) 2000000000000 ∧
    (∀ maxPollMillis, Poller.sleepNanos ⟨0, some (.ofSeconds 2)⟩ maxPollMillis ≤ 2000000000) ∧
    ∃ rounds last, Poller.Polls (caller (fun _ _ _ _ => .finish .succeeded) 1) 0
        (pendingRun.world.scheduler 0).config.maxPollMillis.toNat Poller.passLimit 0 false
        [⟨1, .drop⟩] (Poller.start 0 false pendingRun) rounds last ∧
      ∃ o ∈ rounds, WakesInTime (o.begun.world.observed 0 .poller) o.ended.world 0 o.report := by
  obtain ⟨hwakes, hpolls⟩ :=
    reachable_pendingRun.founded.wakes_in_time (fun _ _ _ _ => .finish .succeeded) 1 0
  obtain ⟨-, -, hreports⟩ := hwakes (.named "main")
  have hlaw := hreports (by decide +kernel) _ _ pendingPass_pendingRun
  have hleast := hlaw.least rfl representable_pendingRun _ rfl
  refine ⟨_, pendingPass_pendingRun, hleast, fun maxPollMillis => ?_, ?_⟩
  · have hsoon := hlaw.soon maxPollMillis _ hleast.1
    have htotal : (Duration.ofSeconds 2).total = 2000000000000 := rfl
    omega
  · obtain ⟨rounds, last, hrounds, -, hinTime⟩ :=
      hpolls false [⟨1, .drop⟩] (by decide +kernel)
    obtain ⟨o, ho, hbegun⟩ := exists_round_pendingRun hrounds
    refine ⟨rounds, last, hrounds, o, ho, hinTime o ho ?_⟩
    rw [hbegun]
    decide +kernel

end Timekeeping
