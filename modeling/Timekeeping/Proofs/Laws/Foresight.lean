import Timekeeping.Proofs.Laws.Wakeups
import Timekeeping.Proofs.Run.Sweeps

/-!
What the report of a pass says of the time to come. The time that it names is the wait of
the entry at which the pass stopped, and no other entry that was left then is due before
that one. So a timer that is live all through the pass is not due earlier than reported. A
timer that was queued meanwhile, as a repeating one is by its own firing, is not among the
entries that the pass goes through, and it may be due earlier.
-/
namespace Timekeeping

open Act

/-- A pass over a scheduler begins in the world `w`, ends in the world `w'`, and names the time `d`.
A live timer that nothing takes out of its queue meanwhile is not due before that. One that is live in
the end and due before that was touched meanwhile. -/
structure Forewarns (w w' : World) (s : SchedulerId) (between : List Moment) (d : Duration) :
    Prop where
  positive : d.IsPositive
  kept : ∀ x, w.Ready s x → (∀ m ∈ between, ¬ m.event.Removes x.1) →
    w'.Ready s x ∧ ∀ n ∈ w.lead? x.2, d.total ≤ n
  missed : ∀ x, w'.Ready s x → ∀ n ∈ w.lead? x.2, n < d.total →
    ∃ m ∈ between, m.event.Touches m.world x.1
  attained : ∃ x ∈ w.waiting s .active ++ w.waiting s .idle, w'.Live x ∧
    ∃ n ∈ w.lead? x.2, d = .ofTotal n

/-- A sweep through a snapshot stops at an entry that has to wait for the time `d`. -/
structure StopsAt (p : Snapshot) (s : SchedulerId) (w w' : World) (ms : List Moment)
    (d : Duration) : Prop where
  positive : d.IsPositive
  ahead : ∀ kind, ∀ x ∈ p.marks kind, w.Ready s x → (∀ m ∈ ms, ¬ m.event.Removes x.1) →
    d.total ≤ p.lead x.2
  attained : ∃ kind, ∃ x ∈ p.marks kind, w'.Live x ∧ d = p.wait x.2

variable {call : Caller} {pass : Nat} {s : SchedulerId} {loop : LoopId} {p : Snapshot}
  {next : Snapshot.Pick} {cs : List FireCall} {result : Except Interrupt (Option Duration)}
  {report : PassReport} {d : Duration} {w w' : World} {r r' stop : Run} {ms fires : List Moment}

/-- A turn fires what it picks, if that is ready. -/
theorem Turn.removes (h : Turn pass s w p next fires w') (hw : w.Sound)
    (hready : w.Ready s (next.timer, next.trigger)) :
    ∃ m ∈ turn pass s w p next fires, m.event.Removes next.timer := by
  obtain ⟨start, w₁, htake⟩ := hw.exists_take_eq_started hready.2
  obtain ⟨m, rest, hfires, hstarts⟩ := h.fires.starts htake
  exact ⟨m, by simp [turn, hfires], hstarts.removes⟩

/-- The next entry of a snapshot, if it has to wait, is due before all others that are ready. -/
theorem stopsAt_of_nextWait? (hw : w.Sound) (hobserved : p.Observed) (hsorted : p.Sorted)
    (hnext : p.nextWait? w = some d) (hd : d.IsPositive) : StopsAt p s w w ms d := by
  obtain ⟨next, hpick, rfl⟩ := Option.map_eq_some_iff.mp hnext
  have hskip := p.skip_within w
  obtain ⟨htakes, -⟩ := Snapshot.takes_of_skip hobserved hpick
  refine ⟨hd, fun kind x hx hready _ => ?_, _, _, (hskip.sublist _).subset htakes.mem,
    Snapshot.live_of_skip_eq_cons htakes.front, ?_⟩
  · rcases Snapshot.stale_or_mem_skip w hx with ⟨-, hdead⟩ | hleft
    · exact absurd (hready.live hw) hdead
    · rw [← hskip.lead]
      exact htakes.total_le (hskip.pairwise (hsorted kind)) hd hleft
  · rw [htakes.wait_eq, Snapshot.wait, hskip.lead]
    rfl

/-- A turn leaves the entries that are ready and are not removed for the next turns. -/
theorem Turn.stopsAt (h : Turn pass s w p next fires w') (hw : w.Sound) (hobserved : p.Observed)
    {w'' : World} (hrest : StopsAt next.rest s w' w'' ms d) :
    StopsAt p s w w'' (ms ++ turn pass s w p next fires) d := by
  obtain ⟨htakes, hwithin⟩ := Snapshot.takes_of_skip hobserved h.pick
  refine ⟨hrest.positive, fun kind x hx hready hkept => ?_, ?_⟩
  · have hkept' : ∀ m ∈ turn pass s w p next fires, ¬ m.event.Removes x.1 :=
      fun m hm => hkept m (List.mem_append_right _ hm)
    rcases Snapshot.stale_or_mem_skip w hx with ⟨-, hdead⟩ | hleft
    · exact absurd (hready.live hw) hdead
    · rcases htakes.mem_cases hleft with rfl | hlater
      · obtain ⟨m, hm, hremoves⟩ := h.removes hw hready
        exact absurd hremoves (hkept' m hm)
      · have hready' : w'.Ready s x := h.path.stays_live hw hready.1 hready.2 hkept'
        rw [← hwithin.lead]
        exact hrest.ahead kind x hlater hready' fun m hm => hkept m (List.mem_append_left _ hm)
  · obtain ⟨kind, x, hx, hlive, hwait⟩ := hrest.attained
    refine ⟨kind, x, (hwithin.sublist kind).subset hx, hlive, ?_⟩
    rw [hwait, Snapshot.wait, hwithin.lead]
    rfl

/-- A pass that has seen how long the next entry has to wait stops at that entry. -/
theorem Serves.stopsAt (h : Serves call pass s r p cs result stop)
    (hcall : call.Keeps (Run.Continues none)) (hpass : pass < r.passes) (hw : r.world.Sound)
    (hobserved : p.Observed) (hsorted : p.Sorted) (hresult : result = .ok (some d)) :
    ∃ ms, stop.journal = ms ++ r.journal ∧ r.world.Path ms stop.world ∧
      StopsAt p s r.world stop.world ms d := by
  induction h with
  | spent hsize => cases hresult
  | @stopped r p hstop =>
    have hnext : p.nextWait? r.world = some d := Except.ok.inj hresult
    obtain ⟨next, hpick, rfl⟩ := Option.map_eq_some_iff.mp hnext
    exact ⟨[⟨.passedOver pass s (p.stale r.world), r.world⟩], rfl,
      .cons .nil (.passedOver pass s _),
      stopsAt_of_nextWait? hw hobserved hsorted hnext (hstop next hpick)⟩
  | broken hpick hdue hfire => cases hresult
  | turned hpick hdue hfire _ ih =>
    obtain ⟨fires, hturn, hjournal, hpasses⟩ := turn_fire (s := s) hcall hpass hpick hdue
    rw [after, hfire] at hturn hjournal hpasses
    obtain ⟨-, hwithin⟩ := Snapshot.takes_of_skip hobserved hpick
    obtain ⟨ms, hms, hpath, hstops⟩ := ih (hpass.trans_le hpasses) (hturn.path.sound hw).1
      (hwithin.observed hobserved) (hwithin.sorted hsorted) hresult
    refine ⟨_, ?_, hturn.path.append hpath, hturn.stopsAt hw hobserved hstops⟩
    rw [hms, hjournal, List.append_assoc]

/-- What a sweep stops at, in terms of the timers that wait when the pass begins and ends. -/
theorem StopsAt.forewarns (h : StopsAt (.ofWorld w s w.host.idleFor?) s w w' ms d)
    (hw : w.Sound) (hpath : w.Path ms w') : Forewarns w w' s ms d := by
  have hahead : ∀ x, w.Ready s x → (∀ m ∈ ms, ¬ m.event.Removes x.1) →
      ∀ n ∈ w.lead? x.2, d.total ≤ n := by
    intro x hready hkept n hlead
    obtain ⟨hmark, rfl⟩ := (Snapshot.lead?_eq_some_iff hready.2).mp hlead
    exact h.ahead _ x hmark hready hkept
  refine ⟨h.positive, fun x hready hkept => ⟨?_, hahead x hready hkept⟩, ?_, ?_⟩
  · exact hpath.stays_live hw hready.1 hready.2 hkept
  · intro x hready n hlead hearly
    by_contra hnone
    have hsame : World.Unchanged w w' x.1 :=
      hpath.unchanged fun m hm htouches => hnone ⟨m, hm, htouches⟩
    have hbefore : w.Ready s x :=
      ⟨hsame.timer ▸ hready.1, (hsame.waiting s x.2.kind x.2).mp hready.2⟩
    have hkept := hahead x hbefore (fun m hm hremoves => hnone ⟨m, hm, hremoves.touches⟩) n hlead
    omega
  · obtain ⟨kind, x, hmark, hlive, hwait⟩ := h.attained
    obtain rfl := Snapshot.kind_of_mem_marks hmark
    have hwaits := (Snapshot.marks_ofWorld_sublist w s _ _).subset hmark
    refine ⟨x, ?_, hlive, _, (Snapshot.lead?_eq_some_iff hwaits).mpr ⟨hmark, rfl⟩, hwait⟩
    cases hkind : x.2.kind with
    | active => exact List.mem_append_left _ (hkind ▸ hwaits)
    | idle => exact List.mem_append_right _ (hkind ▸ hwaits)

/-- Whatever callbacks do, no timer is due before the time that the report of a pass names, except
for those that the pass itself or a callback in it has touched. -/
theorem Run.Founded.report_forewarns (h : r.Founded) (behaviour : Behaviour) (depth : Nat)
    (hdrain : drain (caller behaviour depth) s loop r = .ok report r')
    (hnext : report.untilNext = some d) (hnormal : (r.snapshot s loop).Normal) :
    ∃ between, r'.journal = ⟨.passEnded r.passes s loop report, r'.world⟩ ::
        (between ++ (r.observing s loop).journal) ∧
      Forewarns (r.world.observed s loop) r'.world s between d := by
  have hsound := h.sound.1.observed s loop
  obtain ⟨cs, stop, hserves, -, rfl⟩ := serves_of_drain hdrain
  obtain ⟨ms, hjournal, hpath, hstops⟩ := hserves.stopsAt (keeps_continues behaviour depth)
    (Nat.lt_succ_self _) hsound (Snapshot.observed_ofWorld _ _ _)
    (Snapshot.sorted_ofWorld _ _ _ hsound hnormal) (congrArg Except.ok hnext)
  refine ⟨ms, ?_, hstops.forewarns hsound hpath⟩
  rw [← hjournal]
  rfl

section Hasty

/-- A run to look at. A timer for second 1 that repeats every second and one for second 100 are queued,
and it is second 1. -/
def hastyRun : Run :=
  performAll (fun _ _ _ _ => .finish .succeeded) 1
    [.schedule 0 (.instant (.ofSeconds 1)) (some (.ofSeconds 1)) ⟨0, none⟩ [],
      .schedule 0 (.instant (.ofSeconds 100)) none ⟨1, none⟩ [],
      .changeHost (.setNow (.ofSeconds 1))]
    { world := emptyWorld }

theorem reachable_hastyRun : Reachable hastyRun :=
  (Reachable.start fresh_emptyWorld).performAll _ _ _

attribute [irreducible] hastyRun

/-- A pass over its scheduler. It fires the repeating timer and stops at the other one. -/
def hastyPass : Act PassReport := drain (caller (fun _ _ _ _ => .finish .succeeded) 1) 0 (.named "main")

theorem hastyPass_hastyRun :
    hastyPass hastyRun = .ok ⟨1, some (.ofSeconds 99)⟩ (after hastyPass hastyRun) :=
  eq_ok_of_answer (by decide +kernel)

/-- The timer for second 100 is live all along, so it is not due within the 99 seconds. -/
theorem report_forewarns_hastyRun : ∃ between r',
    hastyPass hastyRun = .ok ⟨1, some (.ofSeconds 99)⟩ r' ∧
    r'.journal = ⟨.passEnded hastyRun.passes 0 (.named "main") ⟨1, some (.ofSeconds 99)⟩, r'.world⟩ ::
      (between ++ (hastyRun.observing 0 (.named "main")).journal) ∧
    Forewarns (hastyRun.world.observed 0 (.named "main")) r'.world 0 between (.ofSeconds 99) ∧
    r'.world.Ready 0 (⟨1⟩, .onClock (.ofSeconds 100)) := by
  obtain ⟨between, hjournal, hforewarns⟩ :=
    reachable_hastyRun.founded.report_forewarns _ _ hastyPass_hastyRun rfl (by decide +kernel)
  exact ⟨between, _, hastyPass_hastyRun, hjournal, hforewarns, by decide +kernel⟩

/-- The repeating timer is live under its next trigger when the pass returns, and it is due in one
second. -/
theorem hastyRun_reports_too_late : ∃ r',
    hastyPass hastyRun = .ok ⟨1, some (.ofSeconds 99)⟩ r' ∧
    ∃ n ∈ (hastyRun.world.observed 0 (.named "main")).leads r'.world 0,
      n < (Duration.ofSeconds 99).total := by
  have hready : (after hastyPass hastyRun).world.Ready 0 (⟨0⟩, .onClock (.ofSeconds 2)) := by
    decide +kernel
  have hlead : (hastyRun.world.observed 0 (.named "main")).lead? (.onClock (.ofSeconds 2)) =
      some (Duration.ofSeconds 1).total := by decide +kernel
  exact ⟨_, hastyPass_hastyRun, _, ⟨_, hready, hlead⟩, by decide⟩

end Hasty

end Timekeeping
