import Timekeeping.Proofs.Run.Firings
import Timekeeping.Proofs.Run.Observing

/-!
The fire calls of a pass. A pass itself notes which entries it passes over, notes what it picks,
and fires that. All else that happens while it lasts is done by the callbacks that these calls
start. How it picks is the business of the snapshot that it serves, and how it ends that of the
last call.
-/
namespace Timekeeping

open Act

/-- A call by which a pass fires a timer: what the pass has picked, and the run in which it makes the
call. -/
structure FireCall where
  timer : TimerId
  trigger : Trigger
  wait : Duration
  begun : Run

namespace FireCall

def mark (c : FireCall) : TimerId × Trigger := (c.timer, c.trigger)

/-- The timer did not wait in the scheduler any more. -/
def skipped (call : Caller) (s : SchedulerId) (c : FireCall) : Bool :=
  match fire call s c.timer c.begun with
  | .ok .skipped _ => true
  | _ => false

/-- The call starts its timer, first of all and once. The rest is done by the callback, and the firing
is settled if that comes back. -/
def Starts (call : Caller) (s : SchedulerId) (c : FireCall) : Prop :=
  ∃ start w back, c.begun.world.take s c.timer = .started start w ∧
    back = after (call s start.callback (w.calls.get start.callback.key) start.args)
      (c.begun.starting s c.timer start w) ∧
    (after (fire call s c.timer) c.begun = back ∨
      after (fire call s c.timer) c.begun = back.settling s c.timer start)

end FireCall

/-- What a pass does itself from one run to another. It makes these fire calls, each right after the
note of its own pick, and between them it notes what it passes over. An interrupt in a call ends it. -/
inductive Makes (call : Caller) (pass : Nat) (s : SchedulerId) :
    Run → List FireCall → Option Interrupt → Run → Prop
  | done {r : Run} : Makes call pass s r [] none r
  | noted {r stop : Run} {cs : List FireCall} {i : Option Interrupt}
      {entries : List (TimerId × Trigger)}
      (hrest : Makes call pass s (r.advance (.passedOver pass s entries) r.world) cs i stop) :
      Makes call pass s r cs i stop
  | broken {r back : Run} {c : FireCall} {i : Interrupt}
      (hpick : c.begun = r.advance (.picked pass s c.timer c.trigger c.wait) r.world)
      (hfire : fire call s c.timer c.begun = .error i back) :
      Makes call pass s r [c] (some i) back
  | returned {r back stop : Run} {c : FireCall} {cs : List FireCall} {i : Option Interrupt}
      {outcome : FiringOutcome}
      (hpick : c.begun = r.advance (.picked pass s c.timer c.trigger c.wait) r.world)
      (hfire : fire call s c.timer c.begun = .ok outcome back)
      (hrest : Makes call pass s back cs i stop) : Makes call pass s r (c :: cs) i stop

/-- A pass of a loop over a scheduler from the run `r` on, and the fire calls that it makes. It comes
to its end and reports how many of them were not skipped, or the last of them is interrupted. -/
inductive Drains (call : Caller) (s : SchedulerId) (loop : LoopId) (r : Run) (cs : List FireCall) :
    Prop
  | ended {stop : Run} {report : PassReport}
      (hmakes : Makes call r.passes s (r.observing s loop) cs none stop)
      (hfired : report.fired = cs.countP fun c => !c.skipped call s)
      (hdrain : drain call s loop r =
        .ok report (stop.advance (.passEnded r.passes s loop report) stop.world))
  | broken {stop : Run} {i : Interrupt}
      (hmakes : Makes call r.passes s (r.observing s loop) cs (some i) stop)
      (hdrain : drain call s loop r = .error i stop)

/-- The run after a pass has passed over what is not live. -/
def Run.passing (r : Run) (pass : Nat) (s : SchedulerId) (p : Snapshot) : Run :=
  r.advance (.passedOver pass s (p.stale r.world)) r.world

/-- The run in which a pass fires what it has picked. -/
def Run.picking (r : Run) (pass : Nat) (s : SchedulerId) (p : Snapshot) (next : Snapshot.Pick) :
    Run :=
  (r.passing pass s p).advance (.picked pass s next.timer next.trigger next.wait) r.world

/-- The queues that a pass goes through which begins in the run. -/
def Run.snapshot (r : Run) (s : SchedulerId) (loop : LoopId) : Snapshot :=
  .ofWorld (r.world.observed s loop) s (r.world.observed s loop).host.idleFor?

namespace Snapshot

/-- The wait of the entry that is next in a world, where one is live. -/
def nextWait? (p : Snapshot) (w : World) : Option Duration := (p.skip w).pick?.map Pick.wait

/-- The call that fires what was picked. -/
def Pick.call (next : Pick) (begun : Run) : FireCall :=
  ⟨next.timer, next.trigger, next.wait, begun⟩

end Snapshot

/-- How a pass serves a snapshot. It fires what is next as long as that is due. In the end it has seen
how long the next entry has to wait, unless a call was interrupted. -/
inductive Serves (call : Caller) (pass : Nat) (s : SchedulerId) :
    Run → Snapshot → List FireCall → Except Interrupt (Option Duration) → Run → Prop
  | spent {r : Run} {p : Snapshot} (hsize : p.size = 0) : Serves call pass s r p [] (.ok none) r
  | stopped {r : Run} {p : Snapshot}
      (hstop : ∀ next, (p.skip r.world).pick? = some next → next.wait.IsPositive) :
      Serves call pass s r p [] (.ok (p.nextWait? r.world)) (r.passing pass s p)
  | broken {r back : Run} {p : Snapshot} {next : Snapshot.Pick} {i : Interrupt}
      (hpick : (p.skip r.world).pick? = some next) (hdue : ¬ next.wait.IsPositive)
      (hfire : fire call s next.timer (r.picking pass s p next) = .error i back) :
      Serves call pass s r p [next.call (r.picking pass s p next)] (.error i) back
  | turned {r back stop : Run} {p : Snapshot} {next : Snapshot.Pick} {outcome : FiringOutcome}
      {cs : List FireCall} {result : Except Interrupt (Option Duration)}
      (hpick : (p.skip r.world).pick? = some next) (hdue : ¬ next.wait.IsPositive)
      (hfire : fire call s next.timer (r.picking pass s p next) = .ok outcome back)
      (hrest : Serves call pass s back next.rest cs result stop) :
      Serves call pass s r p (next.call (r.picking pass s p next) :: cs) result stop

/-- What has interrupted a pass. -/
def interruptOf : Except Interrupt (Option Duration) → Option Interrupt
  | .ok _ => none
  | .error i => some i

/-- What a pass has counted and seen, or what has interrupted it. -/
def reportOf (fired : Nat) (stop : Run) :
    Except Interrupt (Option Duration) → EStateM.Result Interrupt Run PassReport
  | .ok untilNext => .ok ⟨fired, untilNext⟩ stop
  | .error i => .error i stop

variable {call : Caller} {pass : Nat} {s : SchedulerId} {loop : LoopId} {r stop : Run}
  {p : Snapshot} {cs : List FireCall} {result : Except Interrupt (Option Duration)}

theorem FireCall.skipped_of_ok {c : FireCall} {outcome : FiringOutcome} {back : Run}
    (h : fire call s c.timer c.begun = .ok outcome back) :
    c.skipped call s = decide (outcome = .skipped) := by
  unfold FireCall.skipped
  rw [h]
  cases outcome <;> rfl

/-- A sweep stops when nothing is live, or what is next is not due. -/
theorem sweep_of_stop (call : Caller) (pass : Nat) (s : SchedulerId) (count fired : Nat)
    (hstop : ∀ next, (p.skip r.world).pick? = some next → next.wait.IsPositive) :
    sweep call pass s (count + 1) p fired r =
      .ok ⟨fired, p.nextWait? r.world⟩ (r.passing pass s p) := by
  unfold sweep Snapshot.nextWait?
  rw [world_bind]
  cases hpick : (p.skip r.world).pick? with
  | none => rfl
  | some next =>
    dsimp only
    rw [if_pos (hstop next hpick)]
    rfl

/-- A sweep fires what is next and due, and goes on with the rest. -/
theorem sweep_of_due (call : Caller) (pass : Nat) (s : SchedulerId) (count fired : Nat)
    {next : Snapshot.Pick} (hpick : (p.skip r.world).pick? = some next)
    (hdue : ¬ next.wait.IsPositive) :
    sweep call pass s (count + 1) p fired r =
      (fire call s next.timer >>= fun outcome =>
        sweep call pass s count next.rest (if outcome = .skipped then fired else fired + 1))
        (r.picking pass s p next) := by
  conv_lhs => unfold sweep
  rw [world_bind, hpick]
  dsimp only
  rw [if_neg hdue]
  rfl

/-- A sweep serves its snapshot. -/
theorem serves_sweep (call : Caller) (pass : Nat) (s : SchedulerId) (fired : Nat) {count : Nat}
    (hsize : p.size ≤ count) (hobserved : p.Observed) :
    ∃ cs result stop, Serves call pass s r p cs result stop ∧
      sweep call pass s count p fired r =
        reportOf (fired + cs.countP fun c => !c.skipped call s) stop result := by
  induction count generalizing p fired r with
  | zero => exact ⟨[], _, r, .spent (Nat.le_zero.mp hsize), rfl⟩
  | succ count ih =>
    by_cases hnext : ∃ next, (p.skip r.world).pick? = some next ∧ ¬ next.wait.IsPositive
    · obtain ⟨next, hpick, hdue⟩ := hnext
      obtain ⟨htakes, hwithin⟩ := Snapshot.takes_of_skip hobserved hpick
      have hleft : next.rest.size ≤ count := by
        have hsmaller := htakes.size
        have hskip := (p.skip_within r.world).size_le
        omega
      rw [sweep_of_due call pass s count fired hpick hdue]
      cases hfire : fire call s next.timer (r.picking pass s p next) with
      | ok outcome back =>
        obtain ⟨cs, result, stop, hserves, hsweep⟩ := ih (r := back)
          (if outcome = .skipped then fired else fired + 1) hleft (hwithin.observed hobserved)
        refine ⟨_, result, stop, .turned hpick hdue hfire hserves, ?_⟩
        rw [bind_of_ok hfire, hsweep, List.countP_cons,
          FireCall.skipped_of_ok (c := next.call (r.picking pass s p next)) hfire]
        by_cases houtcome : outcome = .skipped <;> simp [houtcome]
        congr 1
        omega
      | error i back =>
        refine ⟨_, _, back, .broken hpick hdue hfire, ?_⟩
        rw [bind_of_error hfire]
        rfl
    · have hstop : ∀ next, (p.skip r.world).pick? = some next → next.wait.IsPositive :=
        fun next hpick => by_contra fun hdue => hnext ⟨next, hpick, hdue⟩
      exact ⟨[], _, _, .stopped hstop, sweep_of_stop call pass s count fired hstop⟩

/-- A pass serves the queues as they are when it begins. -/
theorem serves_drain (call : Caller) (s : SchedulerId) (loop : LoopId) (r : Run) :
    ∃ cs result stop,
      Serves call r.passes s (r.observing s loop) (r.snapshot s loop) cs result stop ∧
      drain call s loop r = match reportOf (cs.countP fun c => !c.skipped call s) stop result with
        | .ok report stop =>
          .ok report (stop.advance (.passEnded r.passes s loop report) stop.world)
        | .error i stop => .error i stop := by
  have hhost : (r.world.observed s loop).host = r.world.host :=
    (World.SameFrame.woken r.world s loop).host
  have hsnapshot : Snapshot.ofWorld (r.observing s loop).world s r.world.host.idleFor? =
      r.snapshot s loop := by
    unfold Run.snapshot
    rw [hhost]
    rfl
  obtain ⟨cs, result, stop, hserves, hsweep⟩ := serves_sweep (r := r.observing s loop) call r.passes s
    0 (Nat.le_refl _) (Snapshot.observed_ofWorld (r.world.observed s loop) s _)
  refine ⟨cs, result, stop, hserves, ?_⟩
  rw [drain_eq, world_bind, hsnapshot]
  rw [Nat.zero_add] at hsweep
  cases result with
  | ok untilNext => exact bind_of_ok hsweep
  | error i => exact bind_of_error hsweep

/-- A pass that comes to its end has served the queues, and reports how. -/
theorem serves_of_drain {report : PassReport} {r' : Run} (h : drain call s loop r = .ok report r') :
    ∃ cs stop, Serves call r.passes s (r.observing s loop) (r.snapshot s loop) cs
        (.ok report.untilNext) stop ∧
      report.fired = (cs.countP fun c => !c.skipped call s) ∧
      r' = stop.advance (.passEnded r.passes s loop report) stop.world := by
  obtain ⟨cs, result, stop, hserves, hdrain⟩ := serves_drain call s loop r
  cases result with
  | ok untilNext =>
    cases h.symm.trans hdrain
    exact ⟨cs, stop, hserves, rfl, rfl⟩
  | error i => cases h.symm.trans hdrain

namespace FireCall

variable {c : FireCall}

theorem starts_of_take {start : World.Started} {w : World}
    (htake : c.begun.world.take s c.timer = .started start w) :
    c.Starts call s ∧ c.skipped call s = false := by
  have hfire : fire call s c.timer c.begun = _ := fire_of_take htake
  have hshield := after_shield (c.begun.starting s c.timer start w)
    (w.scheduler s).config.catchPanics
    (call s start.callback (w.calls.get start.callback.key) start.args)
  unfold Starts skipped
  unfold after at hshield ⊢
  cases hback : shield (w.scheduler s).config.catchPanics
      (call s start.callback (w.calls.get start.callback.key) start.args)
      (c.begun.starting s c.timer start w) with
  | ok ending back =>
    rw [hback] at hfire hshield
    rw [hfire]
    refine ⟨⟨start, w, back, htake, hshield, Or.inr rfl⟩, ?_⟩
    cases ending <;> rfl
  | error i back =>
    rw [hback] at hfire hshield
    rw [hfire]
    exact ⟨⟨start, w, back, htake, hshield, Or.inl rfl⟩, rfl⟩

/-- The call for a live timer that does not wait in the scheduler does nothing. -/
theorem fire_of_not_ready (call : Caller) (hw : c.begun.world.Sound)
    (hlive : c.begun.world.Live c.mark) (h : ¬ c.begun.world.Ready s c.mark) :
    fire call s c.timer c.begun = .ok .skipped c.begun := by
  refine fire_of_absent call (Option.eq_none_iff_forall_ne_some.mpr fun kind hkind => h ?_)
  exact hlive.ready hw hkind

/-- The call for a timer that waits in the scheduler starts it. -/
theorem starts_of_waiting (call : Caller) (hw : c.begun.world.Sound) {kind : QueueKind}
    {trigger : Trigger}
    (hwaits : (c.timer, trigger) ∈ c.begun.world.waiting s kind) :
    c.Starts call s ∧ c.skipped call s = false := by
  obtain ⟨start, w, htake⟩ := hw.exists_take_eq_started hwaits
  exact starts_of_take htake

end FireCall

theorem closed_continues : Closed none (fun _ => True) (Run.Continues none) :=
  .of_steps (fun r => ⟨[], .refl none r⟩) (fun ⟨_, h⟩ ⟨_, h'⟩ => ⟨_, h.trans h'⟩)
    fun hstep hpass => ⟨_, .advance (fun _ hnone => nomatch hnone) hstep hpass⟩

theorem continues_fire (hcall : call.Keeps (Run.Continues none)) (s : SchedulerId) (t : TimerId)
    (r : Run) : Run.Continues none r (after (fire call s t) r) :=
  closed_continues.fire (fun s' _ => hcall s') trivial t r

/-- The note of a pass that has begun. -/
theorem continues_note {e : Event} (hstep : r.world.Step e r.world) (hpass : e.pass? = some pass)
    (hbegan : pass < r.passes) : Run.Continues (some pass) r (r.advance e r.world) := by
  refine ⟨_, .advance (fun pass' hown => ?_) hstep fun pass' hmine => ?_⟩
  · obtain rfl := Option.some.inj hown
    exact hbegan
  · exact hpass.symm.trans hmine

/-- The run in which a pass looks at the queues is founded. -/
theorem Run.Founded.observing (h : r.Founded) (s : SchedulerId) (loop : LoopId) :
    (r.observing s loop).Founded := by
  obtain ⟨w, hfresh, hleads⟩ := h
  have hnumbered : Run.Founded { r with passes := r.passes + 1 } :=
    ⟨w, hfresh, hleads.journal, hleads.path, Nat.zero_le _, fun m hm pass hmine =>
      (hleads.below m hm pass hmine).trans (Nat.lt_succ_self _)⟩
  have hobserved := (Run.closed_traced (some r.passes)).observeIdle (s := s) trivial loop
    { r with passes := r.passes + 1 } fun pass hown => by
      obtain rfl := Option.some.inj hown
      exact Nat.lt_succ_self _
  rw [after, observeIdle_run] at hobserved
  exact hnumbered.continues hobserved.continues

namespace Makes

variable {i : Option Interrupt} {c : FireCall}

/-- The run in which a pass fires what it has picked. -/
theorem founded_begun (h : r.Founded) (hbegan : pass < r.passes)
    (hpick : c.begun = r.advance (.picked pass s c.timer c.trigger c.wait) r.world) :
    c.begun.Founded ∧ pass < c.begun.passes := by
  rw [hpick]
  exact ⟨h.continues (continues_note (.picked pass s _ _ _) rfl hbegan), hbegan⟩

/-- A pass makes its calls in founded runs, whatever the callbacks do. -/
theorem founded (h : Makes call pass s r cs i stop) (hcall : call.Keeps (Run.Continues none))
    (hr : r.Founded) (hbegan : pass < r.passes) :
    (∀ c ∈ cs, c.begun.Founded) ∧ stop.Founded := by
  induction h with
  | done => exact ⟨nofun, hr⟩
  | noted _ ih =>
    exact ih (hr.continues (continues_note (.passedOver pass s _) rfl hbegan)) hbegan
  | @broken r back c i hpick hfire =>
    obtain ⟨hbegun, -⟩ := founded_begun hr hbegan hpick
    have hback := continues_fire hcall s c.timer c.begun
    rw [after, hfire] at hback
    exact ⟨by simpa using hbegun, hbegun.continues hback⟩
  | @returned r back stop c cs i outcome hpick hfire _ ih =>
    obtain ⟨hbegun, hpass⟩ := founded_begun hr hbegan hpick
    have hback := continues_fire hcall s c.timer c.begun
    rw [after, hfire] at hback
    obtain ⟨since, hext⟩ := hback
    obtain ⟨hrest, hstop⟩ :=
      ih (hbegun.continues ⟨since, hext⟩) (hpass.trans_le hext.passes)
    exact ⟨List.forall_mem_cons.mpr ⟨hbegun, hrest⟩, hstop⟩

/-- A pass is interrupted just if one of its calls is. -/
theorem returns_iff (h : Makes call pass s r cs i stop) :
    i = none ↔ ∀ c ∈ cs, returns (fire call s c.timer) c.begun = true := by
  induction h with
  | done => exact iff_of_true rfl fun c hc => absurd hc List.not_mem_nil
  | noted _ ih => exact ih
  | broken hpick hfire => simp [returns, hfire]
  | returned hpick hfire _ ih =>
    rw [List.forall_mem_cons, ← ih]
    simp [returns, hfire]

end Makes

namespace Serves

/-- To serve a snapshot is to make fire calls, and no others. -/
theorem makes (h : Serves call pass s r p cs result stop) :
    Makes call pass s r cs (interruptOf result) stop := by
  induction h with
  | spent hsize => exact .done
  | stopped hstop => exact .noted .done
  | broken hpick hdue hfire => exact .noted (.broken rfl hfire)
  | turned hpick hdue hfire _ ih => exact .noted (.returned rfl hfire ih)

end Serves

/-- A pass comes to its end just if all its fire calls return. -/
theorem Drains.returns_iff (h : Drains call s loop r cs) : returns (drain call s loop) r = true ↔
    ∀ c ∈ cs, returns (fire call s c.timer) c.begun = true := by
  cases h with
  | ended hmakes hfired hdrain =>
    rw [← hmakes.returns_iff]
    simp [returns, hdrain]
  | broken hmakes hdrain =>
    rw [← hmakes.returns_iff]
    simp [returns, hdrain]

/-- A pass makes the fire calls by which it serves the queues, one for each of its picks, and else only
takes notes. -/
theorem exists_serves (call : Caller) (s : SchedulerId) (loop : LoopId) (r : Run) :
    ∃ cs result stop, Drains call s loop r cs ∧
      Serves call r.passes s (r.observing s loop) (r.snapshot s loop) cs result stop := by
  obtain ⟨cs, result, stop, hserves, hdrain⟩ := serves_drain call s loop r
  refine ⟨cs, result, stop, ?_, hserves⟩
  cases result with
  | ok untilNext => exact .ended hserves.makes rfl hdrain
  | error i => exact .broken hserves.makes hdrain

end Timekeeping
