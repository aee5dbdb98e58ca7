import Timekeeping.Proofs.Run.FireCalls

/-!
The rounds of a poller. In each it makes a pass over its scheduler, and then it sleeps for as
long as the report of the pass says. A sleep may be cut short by what happens beside the
poller, but it is over when its time has come.
-/
namespace Timekeeping

open Act

namespace Poller

/-- A round of a poller: the millisecond at which it makes a pass, the run in which that begins, what it
reports and leaves, and the end of the sleep after it. -/
structure Round where
  elapsed : Nat
  begun : Run
  report : PassReport
  ended : Run
  awake : Awake
  woken : Run

/-- The poller sleeps in the round until the time that the report of its pass asks for, and not
longer. -/
structure Round.Sleeps (maxPollMillis : Nat) (closed : Bool) (cues : List Cue) (o : Round) : Prop where
  sleep : Poller.sleep (wakeup o.elapsed (sleepNanos o.report maxPollMillis)) o.elapsed { closed } cues
    o.ended = .ok o.awake o.woken
  awake : o.awake.elapsed ≤ wakeup o.elapsed (sleepNanos o.report maxPollMillis)

/-- The rounds of a poller from one run to another, for at most so many passes. It goes on until it is
told to stop, before a pass or after it, or until nobody can tell it anything any more. An interrupt in a
pass ends it too. -/
inductive Polls (call : Caller) (s : SchedulerId) (maxPollMillis : Nat) :
    Nat → Nat → Bool → List Cue → Run → List Round → Run → Prop
  | spent {elapsed : Nat} {closed : Bool} {cues : List Cue} {r : Run} :
      Polls call s maxPollMillis 0 elapsed closed cues r [] r
  | told {passes elapsed : Nat} {closed : Bool} {cues : List Cue} {r : Run}
      (hstop : r.world.stop = true) : Polls call s maxPollMillis (passes + 1) elapsed closed cues r [] r
  | stopped {passes elapsed : Nat} {closed : Bool} {cues : List Cue} {r : Run}
      (hgoes : r.world.stop = false)
      (hlast : returns (drain call s .poller) r = true →
        (after (drain call s .poller) r).world.stop = true) :
      Polls call s maxPollMillis (passes + 1) elapsed closed cues r [] (after (drain call s .poller) r)
  | ended {passes elapsed : Nat} {closed : Bool} {cues : List Cue} {r ended woken : Run}
      {report : PassReport} {awake : Awake} (hgoes : r.world.stop = false)
      (hdrain : drain call s .poller r = .ok report ended) (hwaits : ended.world.stop = false)
      (hsleeps : Round.Sleeps maxPollMillis closed cues ⟨elapsed, r, report, ended, awake, woken⟩)
      (hend : awake.ended = true) :
      Polls call s maxPollMillis (passes + 1) elapsed closed cues r
        [⟨elapsed, r, report, ended, awake, woken⟩] woken
  | round {passes elapsed : Nat} {closed : Bool} {cues : List Cue} {r ended woken last : Run}
      {report : PassReport} {awake : Awake} {rounds : List Round} (hgoes : r.world.stop = false)
      (hdrain : drain call s .poller r = .ok report ended) (hwaits : ended.world.stop = false)
      (hsleeps : Round.Sleeps maxPollMillis closed cues ⟨elapsed, r, report, ended, awake, woken⟩)
      (hlives : awake.ended = false)
      (hrest : Polls call s maxPollMillis passes awake.elapsed awake.watch.closed awake.cues woken
        rounds last) :
      Polls call s maxPollMillis (passes + 1) elapsed closed cues r
        (⟨elapsed, r, report, ended, awake, woken⟩ :: rounds) last

variable {call : Caller} {s : SchedulerId} {maxPollMillis passes deadline elapsed millis fired : Nat}
  {closed : Bool} {cues : List Cue} {v : Watch} {signal : Signal} {w : World} {r last : Run}
  {rounds : List Round}

theorem exists_advanceTo (elapsed millis : Nat) (r : Run) :
    ∃ r', advanceTo elapsed millis r = .ok () r' := by
  unfold advanceTo
  by_cases hlt : elapsed < millis
  · rw [if_pos hlt]
    exact ⟨_, rfl⟩
  · rw [if_neg hlt]
    exact ⟨_, rfl⟩

theorem exists_happen (signal : Signal) (v : Watch) (w : World) (r : Run) :
    ∃ v' r', signal.happen v w r = .ok v' r' := by
  cases signal with
  | goIdle => exact ⟨_, _, rfl⟩
  | goBusy => exact ⟨_, _, rfl⟩
  | set stop =>
    simp only [Signal.happen]
    split
    · exact ⟨_, _, rfl⟩
    · exact ⟨_, _, rfl⟩
  | drop => exact ⟨_, _, rfl⟩

/-- A sleep comes to its end, at its deadline or before. -/
theorem exists_sleep (deadline elapsed : Nat) (v : Watch) (cues : List Cue) (r : Run) :
    ∃ awake woken, sleep deadline elapsed v cues r = .ok awake woken ∧
      awake.elapsed ≤ max elapsed deadline := by
  induction cues generalizing elapsed v r with
  | nil =>
    unfold sleep
    by_cases hstirred : v.stirred
    · rw [if_pos hstirred]
      exact ⟨_, _, rfl, Nat.le_max_left _ _⟩
    · rw [if_neg hstirred]
      obtain ⟨r', hadvance⟩ := exists_advanceTo elapsed deadline r
      exact ⟨_, _, bind_of_ok hadvance, Nat.le_max_right _ _⟩
  | cons cue rest ih =>
    unfold sleep
    by_cases hwoken : v.stirred ∧ elapsed < cue.millis
    · rw [if_pos hwoken]
      exact ⟨_, _, rfl, Nat.le_max_left _ _⟩
    · rw [if_neg hwoken]
      by_cases hasleep : ¬ v.stirred ∧ deadline ≤ cue.millis
      · rw [if_pos hasleep]
        obtain ⟨r', hadvance⟩ := exists_advanceTo elapsed deadline r
        exact ⟨_, _, bind_of_ok hadvance, Nat.le_max_right _ _⟩
      · rw [if_neg hasleep]
        obtain ⟨r₁, hadvance⟩ := exists_advanceTo elapsed cue.millis r
        obtain ⟨v', r₂, hhappen⟩ := exists_happen cue.signal v r₁.world r₁
        obtain ⟨awake, woken, hsleep, hle⟩ := ih (max elapsed cue.millis) v' r₂
        refine ⟨awake, woken, ?_, ?_⟩
        · rw [bind_of_ok hadvance, world_bind, bind_of_ok hhappen]
          exact hsleep
        · -- A cue that happens is due: the poller has been woken by another one, or still sleeps.
          by_cases hstirred : v.stirred
          · have hdue : ¬ elapsed < cue.millis := fun hlt => hwoken ⟨hstirred, hlt⟩
            omega
          · have hdue : ¬ deadline ≤ cue.millis := fun hle => hasleep ⟨hstirred, hle⟩
            omega

/-- A poller that has not been told to stop sleeps by the report of its pass. -/
theorem exists_sleeps (maxPollMillis elapsed : Nat) (closed : Bool) (cues : List Cue) (r : Run)
    (report : PassReport) (ended : Run) : ∃ awake woken,
      Round.Sleeps maxPollMillis closed cues ⟨elapsed, r, report, ended, awake, woken⟩ := by
  obtain ⟨awake, woken, hsleep, hle⟩ := exists_sleep
    (wakeup elapsed (sleepNanos report maxPollMillis)) elapsed { closed } cues ended
  exact ⟨awake, woken, hsleep, hle.trans (max_le (Nat.le_add_right _ _) le_rfl)⟩

/-- A poller makes rounds, and after each of its passes it sleeps by the report, unless that was the
last. -/
theorem polls_loop (call : Caller) (s : SchedulerId) (maxPollMillis passes elapsed : Nat)
    (closed : Bool) (cues : List Cue) (fired : Nat) (r : Run) :
    ∃ rounds, Polls call s maxPollMillis passes elapsed closed cues r rounds
      (after (loop call s maxPollMillis passes elapsed closed cues fired) r) := by
  induction passes generalizing elapsed closed cues fired r with
  | zero => exact ⟨[], .spent⟩
  | succ passes ih =>
    unfold loop
    rw [after_world_bind]
    by_cases hstop : r.world.stop = true
    · rw [if_pos hstop]
      exact ⟨[], .told hstop⟩
    · rw [if_neg hstop, after_bind]
      have hgoes : r.world.stop = false := Bool.not_eq_true _ ▸ hstop
      cases hdrain : drain call s .poller r with
      | error i ended =>
        have hended : ended = after (drain call s .poller) r := by rw [after, hdrain]
        refine ⟨[], ?_⟩
        dsimp only
        rw [hended]
        refine .stopped hgoes fun hreturns => ?_
        rw [returns, hdrain] at hreturns
        cases hreturns
      | ok report ended =>
        dsimp only
        rw [after_world_bind]
        by_cases htold : ended.world.stop = true
        · have hended : ended = after (drain call s .poller) r := by rw [after, hdrain]
          rw [if_pos htold]
          change ∃ rounds, Polls call s maxPollMillis _ elapsed closed cues r rounds ended
          rw [hended] at htold ⊢
          exact ⟨[], .stopped hgoes fun _ => htold⟩
        · have hwaits : ended.world.stop = false := Bool.not_eq_true _ ▸ htold
          rw [if_neg htold, after_bind]
          obtain ⟨awake, woken, hround⟩ :=
            exists_sleeps maxPollMillis elapsed closed cues r report ended
          rw [hround.sleep]
          dsimp only
          by_cases hend : awake.ended = true
          · rw [if_pos hend]
            exact ⟨[_], .ended hgoes hdrain hwaits hround hend⟩
          · have hlives : awake.ended = false := Bool.not_eq_true _ ▸ hend
            rw [if_neg hend]
            obtain ⟨rounds, hrest⟩ := ih awake.elapsed awake.watch.closed awake.cues
              (fired + report.fired) woken
            exact ⟨_, .round hgoes hdrain hwaits hround hlives hrest⟩

/-- The report of a round is what its pass returns. -/
theorem Polls.drain_eq {o : Round}
    (h : Polls call s maxPollMillis passes elapsed closed cues r rounds last) (ho : o ∈ rounds) :
    drain call s .poller o.begun = .ok o.report o.ended := by
  induction h with
  | spent => exact absurd ho List.not_mem_nil
  | told hstop => exact absurd ho List.not_mem_nil
  | stopped hgoes hlast => exact absurd ho List.not_mem_nil
  | ended hgoes hdrain hwaits hsleeps hend =>
    obtain rfl := List.mem_singleton.mp ho
    exact hdrain
  | round hgoes hdrain hwaits hsleeps hlives _ ih =>
    rcases List.mem_cons.mp ho with rfl | ho
    · exact hdrain
    · exact ih ho

/-- The rounds of a poller begin in founded runs, whatever callbacks do. -/
theorem Polls.founded {behaviour : Behaviour} {depth : Nat}
    (h : Polls (caller behaviour depth) s maxPollMillis passes elapsed closed cues r rounds last)
    (hr : r.Founded) : ∀ o ∈ rounds, o.begun.Founded := by
  induction h with
  | spent => exact fun o ho => absurd ho List.not_mem_nil
  | told hstop => exact fun o ho => absurd ho List.not_mem_nil
  | stopped hgoes hlast => exact fun o ho => absurd ho List.not_mem_nil
  | ended hgoes hdrain hwaits hsleeps hend =>
    intro o ho
    obtain rfl := List.mem_singleton.mp ho
    exact hr
  | @round passes elapsed closed cues r ended woken last report awake rounds hgoes hdrain hwaits
      hsleeps hlives _ ih =>
    have hended := hr.after_drain behaviour depth s .poller
    rw [after, hdrain] at hended
    have hwoken := closed_continues.sleep (wakeup elapsed (sleepNanos report maxPollMillis)) elapsed
      { closed } cues ended
    rw [after, hsleeps.sleep] at hwoken
    exact List.forall_mem_cons.mpr ⟨hr, ih (hended.continues hwoken)⟩

/-- The run in which a poller begins its rounds. -/
def start (s : SchedulerId) (stop : Bool) (r : Run) : Run :=
  r.advance (.pollBegan s)
    { r.world with stop, polling := true, loops := r.world.loops.set .poller false }

theorem founded_start (h : r.Founded) (s : SchedulerId) (stop : Bool) : (start s stop r).Founded :=
  h.continues (closed_continues.confined (s := s) trivial (.pollBegan s stop) rfl rfl rfl)

/-- A poller is its rounds, by the setting of its scheduler. -/
theorem polls_run (call : Caller) (s : SchedulerId) (stop : Bool) (cues : List Cue)
    (hfree : r.world.polling = false) : ∃ rounds last,
      Polls call s (r.world.scheduler s).config.maxPollMillis.toNat passLimit 0 false cues
        (start s stop r) rounds last ∧
      after (run call s stop cues) r =
        last.advance (.pollEnded s) { last.world with polling := false } := by
  unfold run
  generalize passLimit = passes
  obtain ⟨rounds, hpolls⟩ := polls_loop call s (r.world.scheduler s).config.maxPollMillis.toNat
    passes 0 false cues 0 (start s stop r)
  refine ⟨rounds, _, hpolls, ?_⟩
  rw [after_world_bind, hfree, if_neg Bool.false_ne_true, after_record_bind, after_closing]
  rfl

end Poller
end Timekeeping
