import Timekeeping.Proofs.Run.ArmingOrder
import Timekeeping.Proofs.Run.Picks

/-!
What a pass fires and in which order. All that it knows is the snapshot from its
start, while its callbacks may change every timer and every queue. That it makes a
fire call only for what is still live is settled call by call, and the order is
that of the snapshot whatever becomes of the queues.
-/
namespace Timekeeping

open Act

/-- The fire calls of a pass over a scheduler that begins in the world `w`, after the moments `earlier`.
Each of them starts its timer, unless that waits in another scheduler by now. The order speaks of exact
leads; waits are cut to what can be stored. -/
structure Orderly (call : Caller) (w : World) (s : SchedulerId) (earlier : List Moment)
    (cs : List FireCall) : Prop where
  bounded : cs.length ≤ (w.scheduler s).active.size + (w.scheduler s).idle.size
  once : (cs.map FireCall.timer).Nodup
  starts : ∀ c ∈ cs, c.begun.world.Ready s c.mark → c.Starts call s
  skips : ∀ c ∈ cs, ¬ c.begun.world.Ready s c.mark →
    fire call s c.timer c.begun = .ok .skipped c.begun
  queued : ∀ c ∈ cs, c.mark ∈ w.waiting s c.trigger.kind
  live : ∀ c ∈ cs, c.begun.world.Live c.mark
  due : ∀ c ∈ cs, (Snapshot.ofWorld w s w.host.idleFor?).Due c.trigger
  due_clock : ∀ c ∈ cs, ∀ time, c.trigger = .onClock time → w.host.now.Normal → time ≤ w.host.now
  due_idle : ∀ c ∈ cs, ∀ delay, c.trigger = .afterIdle delay →
    ∃ idleFor, w.host.idleFor? = some idleFor ∧ delay ≤ idleFor
  wait : ∀ c ∈ cs, c.wait = (Snapshot.ofWorld w s w.host.idleFor?).wait c.trigger
  ascending : (Snapshot.ofWorld w s w.host.idleFor?).Normal →
    (Snapshot.ofWorld w s w.host.idleFor?).Exact →
    cs.Pairwise fun a b => (Snapshot.ofWorld w s w.host.idleFor?).Before a.trigger b.trigger
  queue_order : ∀ kind,
    ((cs.map FireCall.mark).filter fun x => x.2.kind = kind).Sublist (w.waiting s kind)
  arming_order : cs.Pairwise fun a b =>
    a.trigger = b.trigger → queuedAt earlier a.timer < queuedAt earlier b.timer

variable {s : SchedulerId} {r : Run}

/-- Calls for one queue with one trigger are in the order in which their timers were queued. -/
theorem pairwise_rank {rank : TimerId → Nat} {w : World} {cs : List FireCall}
    (hw : w.InOrder rank) (hcs : ∀ kind,
      ((cs.map FireCall.mark).filter fun x => x.2.kind = kind).Sublist (w.waiting s kind)) :
    cs.Pairwise fun a b => a.trigger = b.trigger → rank a.timer < rank b.timer := by
  refine List.pairwise_iff_forall_sublist.mpr fun {a b} hab heq => ?_
  have hmarks : [a.mark, b.mark].Sublist
      ((cs.map FireCall.mark).filter fun x => x.2.kind = a.trigger.kind) := by
    have hfilter := (hab.map FireCall.mark).filter fun x => x.2.kind = a.trigger.kind
    simpa [FireCall.mark, ← heq] using hfilter
  have hpair := (hw s a.trigger.kind).sublist (hmarks.trans (hcs a.trigger.kind))
  simp only [List.pairwise_cons, List.mem_singleton, forall_eq] at hpair
  exact hpair.1 heq

/-- Whatever callbacks do, every pass makes its fire calls in order, one for each timer. -/
theorem Run.Founded.fire_calls_orderly (h : r.Founded) (behaviour : Behaviour) (depth : Nat)
    (s : SchedulerId) (loop : LoopId) :
    ∃ cs, Drains (caller behaviour depth) s loop r cs ∧
      Orderly (caller behaviour depth) (r.world.observed s loop) s r.journal cs := by
  obtain ⟨cs, result, stop, hdrains, hserves⟩ := exists_serves (caller behaviour depth) s loop r
  obtain ⟨hcalls, -⟩ := hserves.makes.founded (keeps_continues behaviour depth)
    (h.observing s loop) (Nat.lt_succ_self _)
  have hsound := h.sound.1.observed s loop
  have hrank : (r.world.observed s loop).InOrder (queuedAt r.journal) := by
    obtain ⟨w, hfresh, hpath⟩ := h.path
    refine (hpath.inOrder hfresh.sound hfresh.waiting).of_sublist fun s' kind => ?_
    rw [World.waiting_observed]
  have hobserved : (r.snapshot s loop).Observed := Snapshot.observed_ofWorld _ _ _
  have hdistinct : (r.snapshot s loop).Distinct := Snapshot.distinct_ofWorld _ _ _ hsound
  have hsub := Snapshot.marks_ofWorld_sublist (r.world.observed s loop) s
    (r.world.observed s loop).host.idleFor?
  have hchoices := hserves.choices
  have hmem := fun c (hc : c ∈ cs) =>
    hchoices.of_mem hobserved (List.mem_map_of_mem (f := FireCall.picked s) hc)
  have hdue : ∀ c ∈ cs, (r.snapshot s loop).Due c.trigger := fun c hc =>
    (Snapshot.due_iff hobserved (hmem c hc).2.1).mpr (hmem c hc).2.2.2.2
  have hqueue : ∀ kind, ((cs.map FireCall.mark).filter fun x => x.2.kind = kind).Sublist
      ((r.world.observed s loop).waiting s kind) := by
    intro kind
    have hpicked := (hchoices.sublist hobserved kind).trans (hsub kind)
    rw [List.map_map] at hpicked
    exact hpicked
  refine ⟨cs, hdrains, ?_⟩
  exact {
    bounded := by
      have hlength := hchoices.length_le hobserved
      rw [List.length_map] at hlength
      exact hlength.trans (Snapshot.size_ofWorld_le ..)
    once := hserves.nodup hobserved hdistinct
    starts := fun c hc hready =>
      (FireCall.starts_of_waiting _ (hcalls c hc).sound.1 hready.2).1
    skips := fun c hc => FireCall.fire_of_not_ready _ (hcalls c hc).sound.1 (hmem c hc).2.2.1
    queued := fun c hc => (hsub _).subset (hmem c hc).2.1
    live := fun c hc => (hmem c hc).2.2.1
    due := hdue
    due_clock := fun c hc time heq hnow => (heq ▸ hdue c hc).le_now hnow
    due_idle := fun c hc delay heq => (heq ▸ hdue c hc).le_idleFor rfl
    wait := fun c hc => (hmem c hc).2.2.2.1
    ascending := fun hnormal hexact => by
      have hbefore := hchoices.pairwise_before hobserved
        (Snapshot.sorted_ofWorld _ _ _ hsound hnormal) hexact
      rw [List.pairwise_map] at hbefore
      exact hbefore
    queue_order := hqueue
    arming_order := pairwise_rank hrank hqueue }

/-- A pass that makes three calls, for an idle timer between two of the active queue. -/
theorem fire_calls_orderly_waitingRun : ∃ cs,
    Drains (caller sampleBehaviour 1) 0 (.named "main") waitingRun cs ∧ cs.length = 3 ∧
      Orderly (caller sampleBehaviour 1) (waitingRun.world.observed 0 (.named "main")) 0
        waitingRun.journal cs := by
  have hfounded := reachable_waitingRun.founded
  obtain ⟨cs, hdrains, horderly⟩ :=
    hfounded.fire_calls_orderly sampleBehaviour 1 0 (.named "main")
  have hpicks := congrArg List.length (hdrains.picks_eq (keeps_continues sampleBehaviour 1) hfounded)
  rw [List.length_map] at hpicks
  have hthree : (picks waitingRun.passes (after (drain (caller sampleBehaviour 1) 0 (.named "main"))
      waitingRun).journal).length = 3 := by decide +kernel
  exact ⟨cs, hdrains, hpicks.symm.trans hthree, horderly⟩

end Timekeeping
