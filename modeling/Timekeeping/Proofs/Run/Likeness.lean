import Timekeeping.Proofs.Run.Mirroring

/-!
Programs that do the same and may come to different ends. Callbacks that run such
programs mirror each other at any depth of nesting, and so does everything that is
made of them: firings, passes, pollers and all other operations.
-/
namespace Timekeeping

open Act

/-- The firings came to the same, but for a failure. -/
def FiringOutcome.Alike (o o' : FiringOutcome) : Prop := o = .skipped ↔ o' = .skipped

/-- The programs do the same whatever like answers they get, and may end in different ways. -/
inductive Program.Alike : Program → Program → Prop
  | finishes (ending ending' : Ending) : Alike (.finish ending) (.finish ending')
  | fails (ending : Ending) (payload : Payload) : Alike (.finish ending) (.panic payload)
  | recovers (payload : Payload) (ending : Ending) : Alike (.panic payload) (.finish ending)
  | panics (payload payload' : Payload) : Alike (.panic payload) (.panic payload')
  | perform (label : Option String) (operation : World → Operation) {next next' : Reply → Program}
      (h : ∀ reply reply', reply.Alike reply' → Alike (next reply) (next' reply')) :
      Alike (.perform label operation next) (.perform label operation next')
  | rescue (operation : World → Operation) {next next' : Except Payload Reply → Program}
      (h : ∀ result result', Lifts Reply.Alike result result' → Alike (next result) (next' result')) :
      Alike (.rescue operation next) (.rescue operation next')

/-- Each call of a callback runs like programs. -/
def Behaviour.Alike (behaviour behaviour' : Behaviour) : Prop :=
  ∀ key number s args, (behaviour key number s args).Alike (behaviour' key number s args)

def Caller.Mirrors (call call' : Caller) : Prop :=
  ∀ s callback number args,
    Act.Mirrors Ends (call s callback number args) (call' s callback number args)

variable {call call' : Caller}

section Passes

/-- A firing goes on in the same way however its callback ended. -/
theorem mirrors_fire (hcall : call.Mirrors call') (s : SchedulerId) (t : TimerId) :
    Mirrors (Lifts FiringOutcome.Alike) (fire call s t) (fire call' s t) := by
  unfold fire
  refine .world fun w => ?_
  cases w.take s t with
  | absent => exact .pure Iff.rfl
  | idle w' => exact .record_bind (.same _) (.pure Iff.rfl)
  | started start w' =>
    dsimp only
    have hlast : ∀ ending ending' : Ending, Mirrors (Lifts FiringOutcome.Alike)
        (do record (.settled s t start.again) ((← world).settle s t start)
            return .ofEnding t start.callback ending)
        (do record (.settled s t start.again) ((← world).settle s t start)
            return .ofEnding t start.callback ending') := by
      intro ending ending'
      refine .world fun w₁ => .record_bind (.same _) (.pure ?_)
      exact iff_of_false (FiringOutcome.ofEnding_ne_skipped _ _ ending)
        (FiringOutcome.ofEnding_ne_skipped _ _ ending')
    refine .record_bind_of_catches (.same _) ?_ fun hcatches => ?_
    · refine grows_bind (fun r => ?_) fun ending => (hlast ending ending).grows
      rw [after_shield]
      exact (hcall ..).grows r
    · have hcatching : (w'.scheduler s).config.catchPanics = true := hcatches _ rfl
      rw [hcatching]
      exact (hcall ..).attempt.bind (fun _ => trivial) .error fun ending ending' _ =>
        hlast ending ending'

theorem mirrors_sweep (hcall : call.Mirrors call') (pass : Nat) (s : SchedulerId) (count : Nat)
    (p : Snapshot) (fired : Nat) :
    Mirrors (Lifts Eq) (sweep call pass s count p fired) (sweep call' pass s count p fired) := by
  induction count generalizing p fired with
  | zero => exact .pure rfl
  | succ count ih =>
    unfold sweep
    refine .world fun w => .record_bind (.same _) ?_
    split
    · exact .pure rfl
    · split
      · exact .pure rfl
      · refine .record_bind (.same _) ?_
        refine (mirrors_fire hcall s _).bind (fun _ => Iff.rfl) .error fun o o' ho => ?_
        -- A firing that failed counts like one that ran.
        have hfired : (if o = .skipped then fired else fired + 1) =
            if o' = .skipped then fired else fired + 1 := if_congr ho rfl rfl
        rw [hfired]
        exact ih _ _

theorem mirrors_wakeIdle (s : SchedulerId) (loop : LoopId) (w : World) :
    Mirrors (Lifts fun _ _ => True) (wakeIdle s loop w) (wakeIdle s loop w) := by
  unfold wakeIdle
  split
  · exact .record (.same _) _
  · exact .pure trivial

theorem mirrors_observeIdle (pass : Nat) (s : SchedulerId) (loop : LoopId) :
    Mirrors (Lifts Eq) (observeIdle pass s loop) (observeIdle pass s loop) := by
  unfold observeIdle
  refine .world fun w => (mirrors_wakeIdle s loop w).bind (fun _ => trivial) .error fun _ _ _ => ?_
  exact .world fun w' => .record_bind (.same _) (.pure rfl)

theorem mirrors_drain (hcall : call.Mirrors call') (s : SchedulerId) (loop : LoopId) :
    Mirrors (Lifts Eq) (drain call s loop) (drain call' s loop) := by
  unfold drain
  refine .nextPass fun pass => ?_
  refine (mirrors_observeIdle pass s loop).bind (fun _ => rfl) .error ?_
  rintro idleFor _ rfl
  refine .world fun w => (mirrors_sweep hcall pass s _ _ _).bind (fun _ => rfl) .error ?_
  rintro report _ rfl
  exact .world fun w' => .record_bind (.same _) (.pure rfl)

end Passes

section Pollers

open Poller

theorem mirrors_advanceTo (elapsed millis : Nat) :
    Mirrors (Lifts fun _ _ => True) (advanceTo elapsed millis) (advanceTo elapsed millis) := by
  unfold advanceTo
  split
  · exact .world fun w => .record (.same _) _
  · exact .pure trivial

theorem mirrors_happen (signal : Signal) (v : Watch) (w : World) :
    Mirrors (Lifts Eq) (signal.happen v w) (signal.happen v w) := by
  cases signal with
  | goIdle => exact .record_bind (.same _) (.pure rfl)
  | goBusy => exact .record_bind (.same _) (.pure rfl)
  | set stop =>
    simp only [Signal.happen]
    split
    · exact .pure rfl
    · exact .record_bind (.same _) (.pure rfl)
  | drop => exact .pure rfl

theorem mirrors_sleep (deadline elapsed : Nat) (v : Watch) (cues : List Cue) :
    Mirrors (Lifts Eq) (Poller.sleep deadline elapsed v cues)
      (Poller.sleep deadline elapsed v cues) := by
  induction cues generalizing elapsed v with
  | nil =>
    unfold Poller.sleep
    split
    · exact .pure rfl
    · exact (mirrors_advanceTo ..).bind (fun _ => trivial) .error fun _ _ _ => .pure rfl
  | cons cue rest ih =>
    unfold Poller.sleep
    split
    · exact .pure rfl
    · split
      · exact (mirrors_advanceTo ..).bind (fun _ => trivial) .error fun _ _ _ => .pure rfl
      · refine (mirrors_advanceTo ..).bind (fun _ => trivial) .error fun _ _ _ => ?_
        refine .world fun w => (mirrors_happen ..).bind (fun _ => rfl) .error ?_
        rintro v' _ rfl
        exact ih _ v'

theorem mirrors_loop (hcall : call.Mirrors call') (s : SchedulerId) (maxPollMillis passes : Nat)
    (elapsed : Nat) (closed : Bool) (cues : List Cue) (fired : Nat) :
    Mirrors (Lifts Eq) (Poller.loop call s maxPollMillis passes elapsed closed cues fired)
      (Poller.loop call' s maxPollMillis passes elapsed closed cues fired) := by
  induction passes generalizing elapsed closed cues fired with
  | zero => exact .exhausted
  | succ passes ih =>
    unfold Poller.loop
    refine .world fun w => ?_
    split
    · exact .pure rfl
    · refine (mirrors_drain hcall s .poller).bind (fun _ => rfl) .error ?_
      rintro report _ rfl
      refine .world fun w' => ?_
      dsimp only
      split
      · exact .pure rfl
      · refine (mirrors_sleep ..).bind (fun _ => rfl) .error ?_
        rintro awake _ rfl
        split
        · exact .pure rfl
        · exact ih ..

theorem mirrors_poll (hcall : call.Mirrors call') (s : SchedulerId) (stop : Bool)
    (cues : List Cue) :
    Mirrors (Lifts Eq) (Poller.run call s stop cues) (Poller.run call' s stop cues) := by
  unfold Poller.run
  refine .world fun w => ?_
  split
  · exact .panic _
  · exact .record_bind (.same _) ((mirrors_loop hcall ..).closing _ _)

end Pollers

section Operations

theorem mirrors_refuse (e : World.Refusal) :
    Mirrors (Lifts Reply.Alike) (refuse e) (refuse e) := by
  cases e with
  | error e => exact .pure (.same _)
  | localDateOutOfRange => exact .panic _

/-- An operation answers alike, and a firing among them as far as it is not looked at. -/
theorem mirrors_performKnown (hcall : call.Mirrors call') (operation : Operation) :
    Mirrors (Lifts Reply.Alike) (performKnown call operation) (performKnown call' operation) := by
  unfold performKnown
  cases operation with
  | answer reply => exact .pure (.same _)
  | create => exact .world fun w => .record_bind (.same _) (.pure (.same _))
  | name name t => exact .world fun w => .record_bind (.same _) (.pure (.same _))
  | adjust t setting =>
    refine .world fun w => ?_
    cases w.adjust t setting with
    | ok w' => exact .record_bind (.same _) (.pure (.same _))
    | error e => exact .pure (.same _)
  | prepare s timing interval callback args =>
    refine .world fun w => ?_
    cases w.prepare s timing interval callback args with
    | ok made => exact .record_bind (.same _) (.pure (.same _))
    | error e => exact mirrors_refuse e
  | schedule s timing interval callback args =>
    refine .world fun w => ?_
    cases w.schedule s timing interval callback args with
    | ok made => exact .record_bind (.same _) (.pure (.same _))
    | error e => exact mirrors_refuse e
  | scheduleWhenIdle s timing again callback args =>
    refine .world fun w => ?_
    cases w.scheduleWhenIdle s timing again callback args with
    | ok made => exact .record_bind (.same _) (.pure (.same _))
    | error e => exact .pure (.same _)
  | arm s t triggered =>
    refine .world fun w => ?_
    cases w.arm s t triggered with
    | ok w' => exact .record_bind (.same _) (.pure (.same _))
    | error e => exact .pure (.same _)
  | armIdle s t immediate =>
    refine .world fun w => ?_
    cases w.armIdle s t immediate with
    | ok w' => exact .record_bind (.same _) (.pure (.same _))
    | error e => exact .pure (.same _)
  | cancel s t =>
    refine .world fun w => ?_
    cases w.cancel? s t with
    | some w' => exact .record_bind (.same _) (.pure (.same _))
    | none => exact .pure (.same _)
  | cancelEvery s callback => exact .world fun w => .record_bind (.same _) (.pure (.same _))
  | startIdle s => exact .world fun w => .record_bind (.same _) (.pure (.same _))
  | setContext s name value => exact .world fun w => .record_bind (.same _) (.pure (.same _))
  | eraseContext s name => exact .world fun w => .record_bind (.same _) (.pure (.same _))
  | changeHost change => exact .world fun w => .record_bind (.same _) (.pure (.same _))
  | setStop value => exact .world fun w => .record_bind (.same _) (.pure (.same _))
  | fire s t =>
    refine (mirrors_fire hcall s t).bind (fun _ => Iff.rfl) .error fun o o' ho => ?_
    exact .pure (.outcome ho)
  | drain s loop =>
    refine (mirrors_drain hcall s loop).bind (fun _ => rfl) .error ?_
    rintro report _ rfl
    exact .world fun w => .pure (.same _)
  | poll s stop cues =>
    refine (mirrors_poll hcall s stop cues).bind (fun _ => rfl) .error ?_
    rintro report _ rfl
    exact .pure (.same _)

theorem mirrors_perform (hcall : call.Mirrors call') (operation : Operation) :
    Mirrors (Lifts Reply.Alike) (perform call operation) (perform call' operation) := by
  unfold perform
  refine .world fun w => ?_
  split
  · exact mirrors_performKnown hcall operation
  · exact .pure (.same _)

end Operations

section Programs

theorem mirrors_noteStep (key number : Nat) (label : Option String) {reply reply' : Reply}
    (h : reply.Alike reply') (w : World) :
    Mirrors (Lifts fun _ _ => True) (noteStep key number label reply w)
      (noteStep key number label reply' w) := by
  cases label with
  | none => exact .pure trivial
  | some label => exact .record (.stepped key number label h) w

/-- Like programs mirror each other. Each step gets like answers, so what follows is alike too. -/
theorem Program.Alike.mirrors {p p' : Program} (h : p.Alike p') (hcall : call.Mirrors call')
    (key number : Nat) :
    Act.Mirrors Ends (p.run call key number) (p'.run call' key number) := by
  induction h with
  | finishes ending ending' => exact ⟨fun r => .refl r, fun htwin _ => ⟨htwin, nofun, nofun⟩⟩
  | fails ending payload => exact ⟨fun r => .refl r, fun htwin _ => ⟨htwin, nofun, nofun⟩⟩
  | recovers payload ending => exact ⟨fun r => .refl r, fun htwin _ => ⟨htwin, nofun, nofun⟩⟩
  | panics payload payload' => exact ⟨fun r => .refl r, fun htwin _ => ⟨htwin, nofun, nofun⟩⟩
  | perform label operation _ ih =>
    unfold Program.run
    refine .world fun w => ?_
    refine (mirrors_perform hcall _).bind .same (fun _ => Iff.rfl) fun reply reply' hreply => ?_
    refine .world fun w' => ?_
    exact (mirrors_noteStep key number label hreply w').bind (fun _ => trivial)
      (fun _ => Iff.rfl) fun _ _ _ => ih reply reply' hreply
  | rescue operation _ ih =>
    unfold Program.run
    refine .world fun w => ?_
    exact (mirrors_perform hcall _).caught.bind (Lifts.refl .same) (fun _ => Iff.rfl)
      fun result result' hresult => ih result result' hresult

variable {behaviour behaviour' : Behaviour}

/-- Callbacks mirror each other at any depth of nesting. -/
theorem Behaviour.Alike.mirrors (h : behaviour.Alike behaviour') (depth : Nat) :
    (caller behaviour depth).Mirrors (caller behaviour' depth) := by
  induction depth with
  | zero => exact fun _ _ _ _ => ⟨fun r => .refl r, fun htwin _ => ⟨htwin, Iff.rfl⟩⟩
  | succ depth ih => exact fun s callback number args => (h _ _ _ _).mirrors ih _ _

theorem Behaviour.Alike.mirrors_execute (h : behaviour.Alike behaviour') (depth : Nat)
    (operation : Operation) :
    Mirrors (Lifts Reply.Alike) (execute behaviour depth operation)
      (execute behaviour' depth operation) :=
  mirrors_perform (h.mirrors depth) operation

end Programs

end Timekeeping
