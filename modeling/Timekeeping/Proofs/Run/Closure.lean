import Timekeeping.Run.Program
import Timekeeping.Proofs.Run.Steps

/-!
All actions are made of steps. A relation between runs that steps keep, and
that passes keep if callbacks do, is kept by every operation, by every program
and by callbacks that are nested to any depth. If steps keep it only on certain
schedulers, then operations and programs do that are confined to these.
-/
namespace Timekeeping

namespace Act

variable {α β : Type} (r : Run)

theorem after_world_bind (f : World → Act α) : after (world >>= f) r = after (f r.world) r := rfl

theorem after_record_bind (e : Event) (w : World) (f : Unit → Act α) :
    after (record e w >>= f) r = after (f ()) (r.advance e w) := rfl

theorem after_nextPass_bind (f : Nat → Act α) :
    after (nextPass >>= f) r = after (f r.passes) { r with passes := r.passes + 1 } := rfl

theorem after_attempt (a : Act Ending) : after (attempt a) r = after a r := by
  unfold after attempt
  cases a r with
  | ok ending r' => rfl
  | error i r' => cases i <;> rfl

theorem after_shield (catching : Bool) (a : Act Ending) :
    after (shield catching a) r = after a r := by
  cases catching with
  | false => rfl
  | true => exact after_attempt r a

theorem after_caught (a : Act α) : after (caught a) r = after a r := by
  unfold after caught
  cases a r with
  | ok x r' => rfl
  | error i r' => cases i <;> rfl

theorem after_closing (e : Event) (f : World → World) (a : Act α) :
    after (closing e f a) r = (after a r).advance e (f (after a r).world) := by
  unfold after closing
  cases a r <;> rfl

/-- Whether an action comes to its end without an interrupt. -/
def returns (a : Act α) (r : Run) : Bool :=
  match a r with
  | .ok _ _ => true
  | .error _ _ => false

/-- What an action comes to, beside the run. -/
def answer (a : Act α) (r : Run) : Except Interrupt α :=
  match a r with
  | .ok x _ => .ok x
  | .error i _ => .error i

variable {r} in
/-- An action that answers ends in the run after it. -/
theorem eq_ok_of_answer {a : Act α} {x : α} (h : answer a r = .ok x) : a r = .ok x (after a r) := by
  unfold answer at h
  unfold after
  cases ha : a r with
  | ok y r' =>
    rw [ha] at h
    cases h
    rfl
  | error i r' =>
    rw [ha] at h
    cases h

variable {r} in
theorem bind_of_ok {a : Act α} {f : α → Act β} {x : α} {r' : Run} (h : a r = .ok x r') :
    (a >>= f) r = f x r' := by
  simp only [bind, EStateM.bind, h]

variable {r} in
theorem bind_of_error {a : Act α} {f : α → Act β} {i : Interrupt} {r' : Run}
    (h : a r = .error i r') : (a >>= f) r = .error i r' := by
  simp only [bind, EStateM.bind, h]

end Act

open Act

theorem perform_of_known {call : Caller} {r : Run} (operation : Operation)
    (hknown : operation.timer?.all r.world.made = true) :
    perform call operation r = performKnown call operation r := by
  unfold perform
  rw [world_bind, if_pos hknown]

/-- The scheduler that an operation is performed on. -/
def Operation.scheduler? : Operation → Option SchedulerId
  | prepare s _ _ _ _ => some s
  | schedule s _ _ _ _ => some s
  | scheduleWhenIdle s _ _ _ _ => some s
  | arm s _ _ => some s
  | armIdle s _ _ => some s
  | cancel s _ => some s
  | cancelEvery s _ => some s
  | startIdle s => some s
  | setContext s _ _ => some s
  | eraseContext s _ => some s
  | fire s _ => some s
  | drain s _ => some s
  | poll s _ _ => some s
  | _ => none

/-- The operation is performed on one of the schedulers, or on none. -/
def Operation.Within (on : SchedulerId → Prop) (operation : Operation) : Prop :=
  ∀ s, operation.scheduler? = some s → on s

theorem Operation.within_all (operation : Operation) : operation.Within fun _ => True :=
  fun _ _ => trivial

/-- All operations of the program are performed on these schedulers. -/
def Program.Within (on : SchedulerId → Prop) : Program → Prop
  | finish _ => True
  | panic _ => True
  | perform _ operation next =>
    (∀ w, (operation w).Within on) ∧ ∀ reply, (next reply).Within on
  | rescue operation next => (∀ w, (operation w).Within on) ∧ ∀ result, (next result).Within on

/-- Callbacks that are handed one of the schedulers stay with these schedulers. -/
def Behaviour.Within (on : SchedulerId → Prop) (behaviour : Behaviour) : Prop :=
  ∀ key number s args, on s → (behaviour key number s args).Within on

theorem Program.within_all (program : Program) : program.Within fun _ => True := by
  induction program with
  | finish ending => trivial
  | panic payload => trivial
  | perform label operation next ih => exact ⟨fun w => (operation w).within_all, ih⟩
  | rescue operation next ih => exact ⟨fun w => (operation w).within_all, ih⟩

theorem Behaviour.within_all (behaviour : Behaviour) : behaviour.Within fun _ => True :=
  fun key number s args _ => (behaviour key number s args).within_all

/-- The event is not the end of a firing, and belongs to the pass `own`, if to any, and to one of the
schedulers, if to any. -/
structure Event.Within (own : Option Nat) (on : SchedulerId → Prop) (e : Event) : Prop where
  settles : e.settles = false
  pass : ∀ pass, e.pass? = some pass → own = some pass
  scheduler : ∀ s, e.scheduler? = some s → on s

/-- The run in which the callback of a timer starts. -/
def Run.starting (r : Run) (s : SchedulerId) (t : TimerId) (start : World.Started) (w : World) :
    Run :=
  r.advance (.started s t start.kind start.callback (w.calls.get start.callback.key) start.args)
    { w with calls := w.calls.set start.callback.key (w.calls.get start.callback.key + 1) }

/-- The run in which a firing is over. -/
def Run.settling (r : Run) (s : SchedulerId) (t : TimerId) (start : World.Started) : Run :=
  r.advance (.settled s t start.again) (r.world.settle s t start)

/-- Steps keep the relation that belong to the pass `own` or to none, and to certain schedulers or to
none. The end of a firing keeps it, if it was kept since the timer waited in the scheduler, and since
its callback started. -/
structure Closed (own : Option Nat) (on : SchedulerId → Prop) (P : Run → Run → Prop) : Prop where
  refl : ∀ r, P r r
  trans : ∀ {r₁ r₂ r₃}, P r₁ r₂ → P r₂ r₃ → P r₁ r₃
  advance : ∀ {r : Run} {e : Event} {w : World}, r.world.Step e w → e.Within own on →
    P r (r.advance e w)
  settle : ∀ {r back : Run} {s : SchedulerId} {t : TimerId} {start : World.Started} {w : World},
    on s → r.world.take s t = .started start w → P (r.starting s t start w) back → P r back →
    P r (back.advance (.settled s t start.again) (back.world.settle s t start))

/-- Callbacks keep the relation. -/
def Caller.Keeps (call : Caller) (P : Run → Run → Prop) : Prop :=
  ∀ s callback number args r, P r (after (call s callback number args) r)

/-- Callbacks that are handed one of the schedulers keep the relation. -/
def Caller.KeepsOn (call : Caller) (on : SchedulerId → Prop) (P : Run → Run → Prop) : Prop :=
  ∀ s, on s → ∀ callback number args r, P r (after (call s callback number args) r)

namespace Closed

/-- A relation that all steps keep. -/
theorem of_steps {own : Option Nat} {P : Run → Run → Prop} (refl : ∀ r, P r r)
    (trans : ∀ {r₁ r₂ r₃}, P r₁ r₂ → P r₂ r₃ → P r₁ r₃)
    (advance : ∀ {r : Run} {e : Event} {w : World}, r.world.Step e w →
      (∀ pass, e.pass? = some pass → own = some pass) → P r (r.advance e w)) :
    Closed own (fun _ => True) P where
  refl := refl
  trans := trans
  advance hstep hwithin := advance hstep hwithin.pass
  settle _ _ _ hback := trans hback (advance (.settled _ _ _) fun _ hpass => nomatch hpass)

variable {own : Option Nat} {on : SchedulerId → Prop} {P : Run → Run → Prop} {call : Caller}
  {α β : Type} {r : Run} {e : Event} {w : World} {s : SchedulerId}

theorem bind {a : Act α} {f : α → Act β} (h : Closed own on P) (ha : P r (after a r))
    (hf : ∀ x r', a r = .ok x r' → P r' (after (f x) r')) : P r (after (a >>= f) r) := by
  rw [after_bind]
  unfold after at ha
  cases heq : a r with
  | ok x r' =>
    rw [heq] at ha
    exact h.trans ha (hf x r' heq)
  | error i r' =>
    rw [heq] at ha
    exact ha

/-- A step that belongs to no pass and to no scheduler. -/
theorem foreign (h : Closed own on P) (hstep : r.world.Step e w) (hsettles : e.settles = false)
    (hpass : e.pass? = none) (hscheduler : e.scheduler? = none) : P r (r.advance e w) := by
  refine h.advance hstep ⟨hsettles, fun pass hmine => ?_, fun s hmine => ?_⟩
  · rw [hpass] at hmine
    cases hmine
  · rw [hscheduler] at hmine
    cases hmine

/-- A step that belongs to one of the schedulers and to no pass. -/
theorem confined (h : Closed own on P) (hs : on s) (hstep : r.world.Step e w)
    (hsettles : e.settles = false) (hpass : e.pass? = none) (hscheduler : e.scheduler? = some s) :
    P r (r.advance e w) := by
  refine h.advance hstep ⟨hsettles, fun pass hmine => ?_, fun s' hmine => ?_⟩
  · rw [hpass] at hmine
    cases hmine
  · rw [hscheduler] at hmine
    cases hmine
    exact hs

/-- A step of a pass over one of the schedulers. -/
theorem passing {pass : Nat} (h : Closed (some pass) on P) (hs : on s) (hstep : r.world.Step e w)
    (hsettles : e.settles = false) (hpass : e.pass? = some pass)
    (hscheduler : e.scheduler? = some s) : P r (r.advance e w) := by
  refine h.advance hstep ⟨hsettles, fun pass' hmine => ?_, fun s' hmine => ?_⟩
  · rw [hpass] at hmine
    exact hmine
  · rw [hscheduler] at hmine
    cases hmine
    exact hs

theorem record_bind {f : Unit → Act α} (h : Closed own on P) (hstep : P r (r.advance e w))
    (hf : P (r.advance e w) (after (f ()) (r.advance e w))) :
    P r (after (record e w >>= f) r) :=
  h.trans hstep hf

theorem fire (h : Closed own on P) (hcall : call.KeepsOn on P) (hs : on s) (t : TimerId) (r : Run) :
    P r (after (Timekeeping.fire call s t) r) := by
  unfold Timekeeping.fire
  rw [after_world_bind]
  cases htake : r.world.take s t with
  | absent => exact h.refl r
  | idle w => exact h.confined hs (.emptied htake) rfl rfl rfl
  | started start w =>
    have hstart := h.confined hs (.started htake) rfl rfl rfl
    rw [after_record_bind, after_bind]
    have hback := hcall s hs start.callback (w.calls.get start.callback.key) start.args
      (r.starting s t start w)
    rw [← after_shield _ (w.scheduler s).config.catchPanics] at hback
    unfold after at hback
    split
    · rename_i ending back heq
      change shield _ _ (r.starting s t start w) = _ at heq
      rw [heq] at hback
      exact h.settle hs htake hback (h.trans hstart hback)
    · rename_i i back heq
      change shield _ _ (r.starting s t start w) = _ at heq
      rw [heq] at hback
      exact h.trans hstart hback

theorem sweep {pass : Nat} (h : Closed (some pass) on P) (hcall : call.KeepsOn on P) (hs : on s)
    (count : Nat) (p : Snapshot) (fired : Nat) (r : Run) :
    P r (after (Timekeeping.sweep call pass s count p fired) r) := by
  induction count generalizing p fired r with
  | zero => exact h.refl r
  | succ count ih =>
    unfold Timekeeping.sweep
    rw [after_world_bind]
    refine h.record_bind (h.passing hs (.passedOver pass s _) rfl rfl rfl) ?_
    split
    · exact h.refl _
    · split
      · exact h.refl _
      · refine h.record_bind (h.passing hs (.picked pass s _ _ _) rfl rfl rfl) ?_
        exact h.bind (h.fire hcall hs _ _) (fun outcome r' _ => ih _ _ r')

theorem wakeIdle (h : Closed own on P) (hs : on s) (loop : LoopId) (r : Run) :
    P r (after (Timekeeping.wakeIdle s loop r.world) r) := by
  unfold Timekeeping.wakeIdle
  split
  · exact h.confined hs (.idleStarted s) rfl rfl rfl
  · exact h.refl r

theorem observeIdle {pass : Nat} (h : Closed (some pass) on P) (hs : on s) (loop : LoopId)
    (r : Run) : P r (after (Timekeeping.observeIdle pass s loop) r) := by
  unfold Timekeeping.observeIdle
  rw [after_world_bind]
  refine h.bind (h.wakeIdle hs loop r) (fun _ r' _ => ?_)
  exact h.passing hs (.passBegan pass s loop) rfl rfl rfl

/-- A pass keeps the relation from the moment on at which it got its number. -/
theorem drain (h : Closed (some r.passes) on P) (hcall : call.KeepsOn on P) (hs : on s)
    (loop : LoopId) :
    P { r with passes := r.passes + 1 } (after (Timekeeping.drain call s loop) r) := by
  unfold Timekeeping.drain
  rw [after_nextPass_bind]
  refine h.bind (h.observeIdle hs loop _) (fun idleFor r₁ _ => ?_)
  rw [after_world_bind]
  refine h.bind (h.sweep hcall hs _ _ _ r₁) (fun report r₂ _ => ?_)
  exact h.passing hs (.passEnded r.passes s loop report) rfl rfl rfl

section Operations

variable (h : Closed none on P) (hcall : call.KeepsOn on P)
  (hdrain : ∀ s, on s → ∀ loop r, P r (after (Timekeeping.drain call s loop) r))

include h

theorem advanceTo (elapsed millis : Nat) (r : Run) :
    P r (after (Poller.advanceTo elapsed millis) r) := by
  unfold Poller.advanceTo
  dsimp only
  split
  · exact h.foreign (.hostChanged _) rfl rfl rfl
  · exact h.refl r

theorem happen (signal : Poller.Signal) (v : Poller.Watch) (r : Run) :
    P r (after (signal.happen v r.world) r) := by
  cases signal with
  | goIdle => exact h.foreign (.hostChanged .goIdle) rfl rfl rfl
  | goBusy => exact h.foreign (.hostChanged .goBusy) rfl rfl rfl
  | set stop =>
    simp only [Poller.Signal.happen]
    split
    · exact h.refl r
    · exact h.foreign (.stopSet stop) rfl rfl rfl
  | drop => exact h.refl r

theorem sleep (deadline elapsed : Nat) (v : Poller.Watch) (cues : List Poller.Cue) (r : Run) :
    P r (after (Poller.sleep deadline elapsed v cues) r) := by
  induction cues generalizing elapsed v r with
  | nil =>
    unfold Poller.sleep
    split
    · exact h.refl r
    · exact h.bind (h.advanceTo elapsed deadline r) (fun _ r' _ => h.refl r')
  | cons cue rest ih =>
    unfold Poller.sleep
    split
    · exact h.refl r
    · split
      · exact h.bind (h.advanceTo elapsed deadline r) (fun _ r' _ => h.refl r')
      · refine h.bind (h.advanceTo elapsed cue.millis r) (fun _ r₁ _ => ?_)
        rw [after_world_bind]
        exact h.bind (h.happen cue.signal v r₁) (fun v' r₂ _ => ih _ v' r₂)

theorem refuse (e : World.Refusal) (r : Run) : P r (after (Timekeeping.refuse e) r) := by
  cases e with
  | error e => exact h.refl r
  | localDateOutOfRange => exact h.refl r

theorem noteStep (key number : Nat) (label : Option String) (reply : Reply) (r : Run) :
    P r (after (Timekeeping.noteStep key number label reply r.world) r) := by
  cases label with
  | none => exact h.refl r
  | some label => exact h.foreign (.stepped key number label reply) rfl rfl rfl

include hdrain

theorem loop (hs : on s) (maxPollMillis passes elapsed : Nat) (closed : Bool)
    (cues : List Poller.Cue) (fired : Nat) (r : Run) :
    P r (after (Poller.loop call s maxPollMillis passes elapsed closed cues fired) r) := by
  induction passes generalizing elapsed closed cues fired r with
  | zero => exact h.refl r
  | succ passes ih =>
    unfold Poller.loop
    rw [after_world_bind]
    split
    · exact h.refl r
    · refine h.bind (hdrain s hs .poller r) (fun report r₁ _ => ?_)
      rw [after_world_bind]
      dsimp only
      split
      · exact h.refl r₁
      · refine h.bind (h.sleep _ elapsed _ cues r₁) (fun awake r₂ _ => ?_)
        split
        · exact h.refl r₂
        · exact ih _ _ _ _ r₂

theorem poll (hs : on s) (stop : Bool) (cues : List Poller.Cue) (r : Run) :
    P r (after (Poller.run call s stop cues) r) := by
  unfold Poller.run
  rw [after_world_bind]
  split
  · exact h.refl r
  · refine h.record_bind (h.confined hs (.pollBegan s stop) rfl rfl rfl) ?_
    rw [after_closing]
    exact h.trans (h.loop hdrain hs _ _ _ _ cues _ _)
      (h.confined hs (.pollEnded s) rfl rfl rfl)

include hcall

/-- Every operation on one of the schedulers keeps the relation. -/
theorem perform {operation : Operation} (hon : operation.Within on) (r : Run) :
    P r (after (Timekeeping.perform call operation) r) := by
  unfold Timekeeping.perform
  rw [after_world_bind]
  split
  · rename_i hmade
    cases operation with
    | answer reply => exact h.refl r
    | create => exact h.foreign (.created {} Timer.new_empty) rfl rfl rfl
    | name name t => exact h.foreign (.named name t) rfl rfl rfl
    | adjust t setting =>
      unfold performKnown
      rw [after_world_bind]
      cases hadjust : r.world.adjust t setting with
      | ok w => exact h.foreign (.adjusted hadjust hmade) rfl rfl rfl
      | error e => exact h.refl r
    | prepare s timing interval callback args =>
      unfold performKnown
      rw [after_world_bind]
      cases hprepare : r.world.prepare s timing interval callback args with
      | ok made =>
        obtain ⟨t, w⟩ := made
        obtain ⟨row, time, hrow, -, rfl, rfl⟩ := World.prepare_eq_ok hprepare
        exact h.foreign (.created row hrow) rfl rfl rfl
      | error e => exact h.refuse e r
    | schedule s timing interval callback args =>
      unfold performKnown
      rw [after_world_bind]
      cases hschedule : r.world.schedule s timing interval callback args with
      | ok made =>
        obtain ⟨t, w⟩ := made
        obtain ⟨row, time, hnew, hrow, rfl, rfl⟩ := World.schedule_eq_ok hschedule
        exact h.confined (hon s rfl) (.scheduled s false hrow hnew) rfl rfl rfl
      | error e => exact h.refuse e r
    | scheduleWhenIdle s timing again callback args =>
      unfold performKnown
      rw [after_world_bind]
      cases hschedule : r.world.scheduleWhenIdle s timing again callback args with
      | ok made =>
        obtain ⟨t, w⟩ := made
        obtain ⟨row, delay, hnew, hrow, rfl, rfl⟩ := World.scheduleWhenIdle_eq_ok hschedule
        exact h.confined (hon s rfl) (.scheduled s false hrow hnew) rfl rfl rfl
      | error e => exact h.refl r
    | arm s t triggered =>
      unfold performKnown
      rw [after_world_bind]
      cases harm : r.world.arm s t triggered with
      | ok w =>
        obtain ⟨time, hrow, rfl⟩ := World.arm_eq_ok harm
        exact h.confined (hon s rfl) (.armed s triggered hrow hmade) rfl rfl rfl
      | error e => exact h.refl r
    | armIdle s t immediate =>
      unfold performKnown
      rw [after_world_bind]
      cases harm : r.world.armIdle s t immediate with
      | ok w =>
        obtain ⟨delay, hrow, rfl⟩ := World.armIdle_eq_ok harm
        exact h.confined (hon s rfl) (.armed s (!immediate) hrow hmade) rfl rfl rfl
      | error e => exact h.refl r
    | cancel s t =>
      unfold performKnown
      rw [after_world_bind]
      cases hcancel : r.world.cancel? s t with
      | some w => exact h.confined (hon s rfl) (World.Step.of_cancel? hcancel) rfl rfl rfl
      | none => exact h.refl r
    | cancelEvery s callback =>
      unfold performKnown
      rw [after_world_bind]
      refine h.confined (hon s rfl) (.cancelled s ?_) rfl rfl rfl
      exact fun t ht => World.exists_waiting_of_mem_matching ht
    | startIdle s => exact h.confined (hon s rfl) (.idleStarted s) rfl rfl rfl
    | setContext s name value =>
      exact h.confined (hon s rfl) (.contextChanged s _) rfl rfl rfl
    | eraseContext s name =>
      exact h.confined (hon s rfl) (.contextChanged s _) rfl rfl rfl
    | changeHost change => exact h.foreign (.hostChanged change) rfl rfl rfl
    | setStop value => exact h.foreign (.stopSet value) rfl rfl rfl
    | fire s t => exact h.bind (h.fire hcall (hon s rfl) t r) (fun _ r' _ => h.refl r')
    | drain s loop => exact h.bind (hdrain s (hon s rfl) loop r) (fun _ r' _ => h.refl r')
    | poll s stop cues =>
      exact h.bind (h.poll hdrain (hon s rfl) stop cues r) (fun _ r' _ => h.refl r')
  · exact h.refl r

theorem program (key number : Nat) {program : Program} (hon : program.Within on) (r : Run) :
    P r (after (program.run call key number) r) := by
  induction program generalizing r with
  | finish ending => exact h.refl r
  | panic payload => exact h.refl r
  | perform label operation next ih =>
    unfold Program.run
    rw [after_world_bind]
    refine h.bind (h.perform hcall hdrain (hon.1 _) r) (fun reply r₁ _ => ?_)
    rw [after_world_bind]
    exact h.bind (h.noteStep key number label reply r₁) (fun _ r₂ _ => ih reply (hon.2 reply) r₂)
  | rescue operation next ih =>
    unfold Program.run
    rw [after_world_bind]
    refine h.bind ?_ (fun result r₁ _ => ih result (hon.2 result) r₁)
    rw [after_caught]
    exact h.perform hcall hdrain (hon.1 _) r

end Operations

/-- What passes keep whenever callbacks do is kept by callbacks that are nested to any depth. -/
theorem caller {behaviour : Behaviour} (h : Closed none on P)
    (hdrain : ∀ depth, (Timekeeping.caller behaviour depth).KeepsOn on P → ∀ s, on s → ∀ loop r,
      P r (after (Timekeeping.drain (Timekeeping.caller behaviour depth) s loop) r))
    (hon : behaviour.Within on) (depth : Nat) :
    (Timekeeping.caller behaviour depth).KeepsOn on P := by
  induction depth with
  | zero => exact fun _ _ _ _ _ r => h.refl r
  | succ depth ih =>
    exact fun s hs callback number args r =>
      h.program ih (hdrain _ ih) _ _ (hon callback.key number s args hs) r

theorem execute {behaviour : Behaviour} {operation : Operation} (h : Closed none on P)
    (hdrain : ∀ depth, (Timekeeping.caller behaviour depth).KeepsOn on P → ∀ s, on s → ∀ loop r,
      P r (after (Timekeeping.drain (Timekeeping.caller behaviour depth) s loop) r))
    (hon : behaviour.Within on) (depth : Nat) (hoperation : operation.Within on) (r : Run) :
    P r (after (Timekeeping.execute behaviour depth operation) r) :=
  have hcall := h.caller hdrain hon depth
  h.perform hcall (hdrain _ hcall) hoperation r

end Closed
end Timekeeping
