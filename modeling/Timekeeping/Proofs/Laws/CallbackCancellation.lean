import Timekeeping.Proofs.Laws.Cancellation
import Timekeeping.Proofs.Run.Constructions
import Timekeeping.Proofs.Run.Neighbours
import Timekeeping.Proofs.Run.Settings
import Timekeeping.Proofs.State.Cancellations

/-!
Cancelling all timers of a callback. The timers of one scheduler that have just this callback
leave its queues, whoever else has a callback of that name or waits for the same one elsewhere.
Since a timer waits in one place only, it makes no difference that the timers are collected
before the first of them is taken out.
-/
namespace Timekeeping

open Act World

/-- Every scheduler queues the timer under the trigger when it is armed. -/
def Rearms (call : Caller) (t : TimerId) (r : Run) (trigger : Trigger) : Prop :=
  match trigger with
  | .onClock time => ∀ s triggered, ∃ r', perform call (.arm s t triggered) r = .ok .done r' ∧
      r'.world = r.world.enqueue s t (.onClock time) triggered
  | .afterIdle delay => ∀ s immediate, ∃ r', perform call (.armIdle s t immediate) r = .ok .done r' ∧
      r'.world = r.world.enqueue s t (.afterIdle delay) !immediate

/-- In the run `r'` all timers of a callback have been cancelled that waited in the scheduler. -/
structure Clears (call : Caller) (s : SchedulerId) (callback : Callback) (r r' : Run) : Prop where
  perform_eq : perform call (.cancelEvery s callback) r =
    .ok (.count ((r.world.scheduler s).items.countP (r.world.usesCallback callback))) r'
  scheduler : r'.world.scheduler s =
    (r.world.scheduler s).without (r.world.usesCallback callback)
  others : ∀ s', s' ≠ s → SameAt s' r.world r'.world
  removed : ∀ t ∈ (r.world.scheduler s).items, r.world.usesCallback callback t = true →
    r'.world.timer t = { r.world.timer t with queued := none } ∧ r'.world.Lacks t ∧
      ∃ trigger, (r.world.timer t).trigger = some trigger ∧ Rearms call t r' trigger
  kept : ∀ t, (t ∈ (r.world.scheduler s).items → r.world.usesCallback callback t = false) →
    r'.world.timer t = r.world.timer t
  again : ∃ r'', perform call (.cancelEvery s callback) r' = .ok (.count 0) r'' ∧
    r''.world = r'.world
  /-- The timers may be cancelled one by one in any order, and each time one is. -/
  one_by_one : ∀ ts : List TimerId, ts.Perm (r.world.matching s callback) →
    ∃ r'', (ts.mapM fun t => perform call (.cancel s t)) r =
        .ok (ts.map fun _ => .flag true) r'' ∧ r''.world = r'.world

variable {call : Caller} {s : SchedulerId} {callback : Callback} {r r' : Run} {t : TimerId}
  {w : World} {trigger : Trigger}

/-- The run after all timers of a callback were cancelled. -/
def Run.clearing (r : Run) (s : SchedulerId) (callback : Callback) : Run :=
  r.advance (.cancelled s (r.world.matching s callback))
    (r.world.cancelAll s (r.world.matching s callback))

theorem perform_cancelEvery (call : Caller) (s : SchedulerId) (callback : Callback) (r : Run) :
    perform call (.cancelEvery s callback) r =
      .ok (.count (r.world.matching s callback).length) (r.clearing s callback) := rfl

theorem rearms_of_armable (call : Caller) (h : (r.world.timer t).Armable trigger)
    (hmade : r.world.made t = true) : Rearms call t r trigger := by
  cases trigger with
  | onClock time =>
    intro s triggered
    refine ⟨r.advance (.armed s t .active triggered) _, ?_, rfl⟩
    rw [perform_of_known (.arm s t triggered) hmade]
    unfold performKnown
    dsimp only
    rw [Act.world_bind, arm_of_armable s triggered h]
    rfl
  | afterIdle delay =>
    intro s immediate
    refine ⟨r.advance (.armed s t .idle !immediate) _, ?_, rfl⟩
    rw [perform_of_known (.armIdle s t immediate) hmade]
    unfold performKnown
    dsimp only
    rw [Act.world_bind, armIdle_of_armable s immediate h]
    rfl

namespace World

theorem matching_eq (w : World) (s : SchedulerId) (callback : Callback) :
    w.matching s callback = (w.scheduler s).items.filter (w.usesCallback callback) := rfl

theorem mem_matching : t ∈ w.matching s callback ↔
    t ∈ (w.scheduler s).items ∧ w.usesCallback callback t = true := by
  rw [matching_eq, List.mem_filter]

theorem Sound.scheduler_cancelAll_matching (h : w.Sound) (s : SchedulerId) (callback : Callback) :
    (w.cancelAll s (w.matching s callback)).scheduler s =
      (w.scheduler s).without (w.usesCallback callback) := by
  rw [h.scheduler_cancelAll]
  refine Scheduler.without_congr fun t ht => ?_
  simp [mem_matching, ht]

theorem Sound.timer_cancelAll_matching (h : w.Sound) (s : SchedulerId) (callback : Callback)
    (t : TimerId) : (w.cancelAll s (w.matching s callback)).timer t =
      if t ∈ w.matching s callback then { w.timer t with queued := none } else w.timer t := by
  have hmem : t ∈ w.matching s callback ∧ t ∈ (w.scheduler s).items ↔
      t ∈ w.matching s callback := and_iff_left_of_imp fun ht => (mem_matching.mp ht).1
  rw [h.timer_cancelAll, if_congr hmem rfl rfl]

/-- No timer is left that another cancellation could take out. -/
theorem Sound.matching_cancelAll (h : w.Sound) (s : SchedulerId) (callback : Callback) :
    (w.cancelAll s (w.matching s callback)).matching s callback = [] := by
  rw [matching_eq, List.filter_eq_nil_iff, h.scheduler_cancelAll_matching]
  intro t ht huses
  obtain ⟨hitem, hother⟩ := Scheduler.mem_items_without.mp ht
  have hrow : (w.cancelAll s (w.matching s callback)).timer t = w.timer t := by
    rw [h.timer_cancelAll_matching, if_neg]
    simp [mem_matching, hother]
  unfold usesCallback at huses hother
  rw [hrow, hother] at huses
  cases huses

end World

/-- Timers that wait in a scheduler may be cancelled one by one. -/
theorem mapM_cancel (call : Caller) {ts : List TimerId} (hr : r.world.Sound) (hnodup : ts.Nodup)
    (hts : ∀ t ∈ ts, t ∈ (r.world.scheduler s).items) :
    ∃ r', (ts.mapM fun t => perform call (.cancel s t)) r = .ok (ts.map fun _ => .flag true) r' ∧
      r'.world = r.world.cancelAll s ts := by
  induction ts generalizing r with
  | nil => exact ⟨r, rfl, rfl⟩
  | cons t rest ih =>
    obtain ⟨hfresh, hrest⟩ := List.nodup_cons.mp hnodup
    have ht := hts t List.mem_cons_self
    obtain ⟨kind, hkind⟩ := Option.ne_none_iff_exists'.mp (hr.mem_items_iff.mp ht)
    have hmade : r.world.made t = true :=
      hr.made fun hnone => hr.queued_eq_none_iff.mp hnone s ht
    have hcancel : r.world.cancel? s t = some (r.world.cancel s t) := by
      simp [World.cancel, cancel?, hkind]
    have hperform : perform call (.cancel s t) r =
        .ok (.flag true) (r.advance (.cancelled s [t]) (r.world.cancel s t)) := by
      rw [perform_cancel_eq hmade, hcancel]
    have hleft : ∀ u ∈ rest, u ∈ ((r.world.cancel s t).scheduler s).items := fun u hu => by
      rw [hr.scheduler_cancel, Scheduler.mem_items_without]
      exact ⟨hts u (List.mem_cons_of_mem t hu), decide_eq_false fun heq => hfresh (heq ▸ hu)⟩
    obtain ⟨r', hmapM, hworld⟩ := ih (r := r.advance (.cancelled s [t]) (r.world.cancel s t))
      (hr.cancel s t) hrest hleft
    refine ⟨r', ?_, hworld⟩
    rw [List.mapM_cons]
    simp only [bind, EStateM.bind, hperform, hmapM]
    rfl

theorem World.Sound.clears (h : r.world.Sound) (call : Caller) (s : SchedulerId)
    (callback : Callback) : Clears call s callback r (r.clearing s callback) := by
  have hstep : r.world.Step (.cancelled s (r.world.matching s callback))
      (r.clearing s callback).world :=
    .cancelled s fun t ht => exists_waiting_of_mem_matching ht
  have hafter := hstep.sound h
  have hrow : ∀ t, (r.clearing s callback).world.timer t = _ :=
    h.timer_cancelAll_matching s callback
  refine {
    perform_eq := ?_
    scheduler := h.scheduler_cancelAll_matching s callback
    others := fun s' hne => hstep.sameAt h rfl fun heq => hne (Option.some.inj heq).symm
    removed := fun t ht huses => ?_
    kept := fun t hother => ?_
    again := ⟨(r.clearing s callback).clearing s callback, ?_, ?_⟩
    one_by_one := fun ts hperm => ?_ }
  · rw [perform_cancelEvery, matching_eq, List.countP_eq_length_filter]
  · have hleft : (r.clearing s callback).world.timer t =
        { r.world.timer t with queued := none } := by
      rw [hrow, if_pos (mem_matching.mpr ⟨ht, huses⟩)]
    obtain ⟨kind, trigger, hmem⟩ := mem_items.mp ht
    have hqueued : (r.world.timer t).queued ≠ none := by simp [(h.entry hmem).1]
    refine ⟨hleft, hafter.lacks_iff.mpr (by rw [hleft]), trigger, (h.entry hmem).2, ?_⟩
    refine rearms_of_armable call ?_ (hstep.made (h.made hqueued))
    rw [hleft]
    exact ⟨rfl, (h.entry hmem).2, h.callback hqueued⟩
  · rw [hrow, if_neg]
    intro hmem
    obtain ⟨ht, huses⟩ := mem_matching.mp hmem
    rw [hother ht] at huses
    cases huses
  · have hnone : (r.clearing s callback).world.matching s callback = [] :=
      h.matching_cancelAll s callback
    rw [perform_cancelEvery, hnone]
    rfl
  · have hnone : (r.clearing s callback).world.matching s callback = [] :=
      h.matching_cancelAll s callback
    change (r.clearing s callback).world.cancelAll s _ = _
    rw [hnone]
    rfl
  · have hnodup : ts.Nodup := hperm.nodup_iff.mpr ((h.nodup_items s).filter _)
    obtain ⟨r'', hmapM, hworld⟩ := mapM_cancel call h hnodup
      fun t ht => (mem_matching.mp (hperm.mem_iff.mp ht)).1
    exact ⟨r'', hmapM, hworld.trans (cancelAll_perm hperm r.world s)⟩

/-- The timer has the callback of a place in a script just if the two come from one construction. -/
theorem usesCallback_callbackAt_iff {sources : List Script.RoleSource} {i j : Nat}
    (hi : i < sources.length) (hj : j < sources.length)
    (hcallback : (w.timer t).callback = some (Script.callbackAt (Script.roles sources) i)) :
    w.usesCallback (Script.callbackAt (Script.roles sources) j) t = true ↔
      Script.SameMake sources i j := by
  unfold usesCallback
  rw [hcallback, decide_eq_true_eq]
  exact Script.key_eq_iff_sameMake hi hj

/-- Wherever in a run all timers of a callback are cancelled, just those leave the scheduler, and
callbacks are told apart by their construction. -/
theorem World.Arises.cancels_every (h : r.world.Arises) (call : Caller) (s : SchedulerId)
    (callback : Callback) :
    (∃ r', Clears call s callback r r') ∧
      ∀ {sources : List Script.RoleSource} {i j : Nat} {t : TimerId}, i < sources.length →
        j < sources.length →
        (r.world.timer t).callback = some (Script.callbackAt (Script.roles sources) i) →
        (r.world.usesCallback (Script.callbackAt (Script.roles sources) j) t = true ↔
          Script.SameMake sources i j) :=
  ⟨⟨_, h.sound.clears call s callback⟩, usesCallback_callbackAt_iff⟩

section Twins

/-- Two callbacks of one name, and a clone of the first. -/
def twins : List Script.RoleSource :=
  [.own (some "tick") [] false, .own (some "tick") [] false, .clone 0]

def twin (place : Nat) : Callback := Script.callbackAt (Script.roles twins) place

/-- A run to look at. In one scheduler there are timers of all three callbacks, and in another one there
is a timer of the first. -/
def twinsRun : Run :=
  performAll (Script.behaviour (Script.roles twins)) 1
    [.schedule 0 (.instant (.ofSeconds 2)) (some (.ofSeconds 1)) (twin 0) [],
      .schedule 0 (.instant (.ofSeconds 3)) none (twin 1) [],
      .scheduleWhenIdle 0 (.relative (.ofSeconds 4)) true (twin 2) [],
      .schedule 1 (.instant (.ofSeconds 2)) none (twin 0) [],
      .schedule 0 (.instant (.ofSeconds 1)) none (twin 1) []]
    { world := emptyWorld }

theorem reachable_twinsRun : Reachable twinsRun :=
  (Reachable.start fresh_emptyWorld).performAll _ _ _

attribute [irreducible] twinsRun

/-- The timers of the first callback and of its clone are cancelled, those of its namesake are not. -/
theorem cancels_every_twinsRun :
    (∃ r', Clears (caller (Script.behaviour (Script.roles twins)) 1) 0 (twin 0) twinsRun r' ∧
      (twinsRun.world.scheduler 0).items = [⟨4⟩, ⟨0⟩, ⟨1⟩, ⟨2⟩] ∧
      (r'.world.scheduler 0).items = [⟨4⟩, ⟨1⟩] ∧ (r'.world.scheduler 1).items = [⟨3⟩]) ∧
    Script.SameMake twins 2 0 ∧ ¬ Script.SameMake twins 1 0 := by
  obtain ⟨⟨r', hclears⟩, hmakes⟩ := reachable_twinsRun.arises.cancels_every
    (caller (Script.behaviour (Script.roles twins)) 1) 0 (twin 0)
  refine ⟨⟨r', hclears, by decide +kernel, ?_, ?_⟩, ?_, ?_⟩
  · rw [hclears.scheduler]
    decide +kernel
  · rw [(hclears.others 1 (by decide)).scheduler]
    decide +kernel
  · exact (hmakes (t := ⟨2⟩) (by decide) (by decide) (by decide +kernel)).mp (by decide +kernel)
  · intro hsame
    have huses := (hmakes (t := ⟨1⟩) (by decide) (by decide) (by decide +kernel)).mpr hsame
    revert huses
    decide +kernel

end Twins

end Timekeeping
