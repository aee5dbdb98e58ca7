import Timekeeping.Proofs.Run.Closure
import Mathlib.Data.List.Forall2

/-!
Two runs side by side. Twins have come the same way, except that a firing may have
failed in one of them and not in the other. Two actions mirror each other if they
lead from twins to twins as long as every callback is started through a scheduler
that takes panics for failures. Rules say how mirroring passes through the pieces of
which actions are made.
-/
namespace Timekeeping

/-- The answers are the same, but a firing that ran in one may have failed in the other. -/
inductive Reply.Alike : Reply → Reply → Prop
  | same (reply : Reply) : Alike reply reply
  | outcome {o o' : FiringOutcome} (h : o = .skipped ↔ o' = .skipped) :
      Alike (.outcome o) (.outcome o')

/-- The events are the same, with like answers. -/
inductive Event.Alike : Event → Event → Prop
  | same (e : Event) : Alike e e
  | stepped (key number : Nat) (label : String) {reply reply' : Reply} (h : reply.Alike reply') :
      Alike (.stepped key number label reply) (.stepped key number label reply')

/-- Like events left the same world. -/
structure Moment.Alike (m m' : Moment) : Prop where
  event : m.event.Alike m'.event
  world : m'.world = m.world

/-- The runs are in the same world, to which they came the same way. -/
structure Run.Twin (r r' : Run) : Prop where
  world : r'.world = r.world
  passes : r'.passes = r.passes
  journal : List.Forall₂ Moment.Alike r.journal r'.journal

theorem Run.Twin.refl (r : Run) : r.Twin r :=
  ⟨rfl, rfl, List.forall₂_same.mpr fun _ _ => ⟨.same _, rfl⟩⟩

theorem Run.Twin.advance {r r' : Run} (h : r.Twin r') {e e' : Event} (he : e.Alike e') (w : World) :
    (r.advance e w).Twin (r'.advance e' w) :=
  ⟨rfl, h.passes, .cons ⟨he, rfl⟩ h.journal⟩

/-- A callback that starts: the scheduler and the timer through which it does, the queue from which
the timer came, the callback, which call it is, and the arguments. -/
def Event.start? : Event → Option (SchedulerId × TimerId × QueueKind × Callback × Nat × List Json)
  | started s t kind callback call args => some (s, t, kind, callback, call, args)
  | _ => none

/-- If a callback starts, its scheduler takes panics for failures. -/
def Moment.Catches (m : Moment) : Prop :=
  ∀ start ∈ m.event.start?, (m.world.scheduler start.1).config.catchPanics = true

instance (m : Moment) : Decidable m.Catches :=
  inferInstanceAs (Decidable (∀ start ∈ m.event.start?, _ = true))

namespace Run

variable {r r₁ r₂ : Run}

/-- What was noted before is kept. -/
def Grows (r r' : Run) : Prop := ∃ since, r'.journal = since ++ r.journal

theorem Grows.refl (r : Run) : r.Grows r := ⟨[], rfl⟩

theorem Grows.trans (h : r.Grows r₁) (h' : r₁.Grows r₂) : r.Grows r₂ := by
  obtain ⟨since, hsince⟩ := h
  obtain ⟨since', hsince'⟩ := h'
  exact ⟨since' ++ since, by rw [hsince', hsince, List.append_assoc]⟩

theorem Grows.advance (r : Run) (e : Event) (w : World) : r.Grows (r.advance e w) := ⟨[⟨e, w⟩], rfl⟩

/-- All callbacks that were started meanwhile are caught if they panic. -/
def Caught (r r' : Run) : Prop :=
  ∀ since, r'.journal = since ++ r.journal → ∀ m ∈ since, m.Catches

theorem Caught.left (h : r.Caught r₂) (hlast : r₁.Grows r₂) : r.Caught r₁ := by
  obtain ⟨since', hsince'⟩ := hlast
  intro since hsince m hm
  refine h (since' ++ since) ?_ m (List.mem_append_right _ hm)
  rw [hsince', hsince, List.append_assoc]

theorem Caught.right (h : r.Caught r₂) (hfirst : r.Grows r₁) : r₁.Caught r₂ := by
  obtain ⟨since, hsince⟩ := hfirst
  intro since' hsince' m hm
  refine h (since' ++ since) ?_ m (List.mem_append_left _ hm)
  rw [hsince', hsince, List.append_assoc]

theorem Caught.catches {e : Event} {w : World} (h : r.Caught (r.advance e w)) :
    Moment.Catches ⟨e, w⟩ :=
  h [⟨e, w⟩] rfl _ List.mem_cons_self

end Run

/-- Both are values, which are related, or both are the same exception. -/
inductive Lifts {ε α : Type} (R : α → α → Prop) : Except ε α → Except ε α → Prop
  | ok {x x' : α} (h : R x x') : Lifts R (.ok x) (.ok x')
  | error (i : ε) : Lifts R (.error i) (.error i)

theorem Lifts.refl {ε α : Type} {R : α → α → Prop} (hrefl : ∀ x, R x x) (x : Except ε α) :
    Lifts R x x := by
  cases x with
  | ok x => exact .ok (hrefl x)
  | error i => exact .error i

namespace Act

variable {α β : Type} {a a' : Act α} {f f' : α → Act β} {r r' : Run}

theorem answer_bind (a : Act α) (f : α → Act β) (r : Run) :
    answer (a >>= f) r = match answer a r with
      | .ok x => answer (f x) (after a r)
      | .error i => .error i := by
  simp only [answer, after, bind, EStateM.bind]
  cases a r <;> rfl

theorem after_bind_eq (a : Act α) (f : α → Act β) (r : Run) :
    after (a >>= f) r = match answer a r with
      | .ok x => after (f x) (after a r)
      | .error _ => after a r := by
  rw [after_bind]
  simp only [answer, after]
  cases a r <;> rfl

theorem grows_bind (ha : ∀ r : Run, r.Grows (after a r))
    (hf : ∀ x, ∀ r : Run, r.Grows (after (f x) r)) (r : Run) : r.Grows (after (a >>= f) r) := by
  rw [after_bind_eq]
  split
  · exact (ha r).trans (hf _ _)
  · exact ha r

/-- The actions lead from twins to twins if all callbacks are caught, and their answers are related.
The first one keeps what was noted before in any case. -/
structure Mirrors (P : Except Interrupt α → Except Interrupt α → Prop) (a a' : Act α) : Prop where
  grows : ∀ r : Run, r.Grows (after a r)
  meets : ∀ {r r' : Run}, r.Twin r' → r.Caught (after a r) →
    (after a r).Twin (after a' r') ∧ P (answer a r) (answer a' r')

variable {P : Except Interrupt β → Except Interrupt β → Prop} {R : α → α → Prop}

theorem Mirrors.pure {x x' : α} (h : R x x') :
    Mirrors (Lifts R) (Pure.pure x : Act α) (Pure.pure x') :=
  ⟨fun r => .refl r, fun htwin _ => ⟨htwin, .ok h⟩⟩

theorem Mirrors.panic (payload : Payload) :
    Mirrors (Lifts R) (Act.panic payload : Act α) (Act.panic payload) :=
  ⟨fun r => .refl r, fun htwin _ => ⟨htwin, .error _⟩⟩

theorem Mirrors.exhausted : Mirrors (Lifts R) (Act.exhausted : Act α) Act.exhausted :=
  ⟨fun r => .refl r, fun htwin _ => ⟨htwin, .error _⟩⟩

/-- Twins are in the same world. -/
theorem Mirrors.world {f f' : World → Act β} (h : ∀ w, Mirrors P (f w) (f' w)) :
    Mirrors P (Act.world >>= f) (Act.world >>= f') := by
  refine ⟨fun r => (h r.world).grows r, fun {r r'} htwin hcaught => ?_⟩
  have hmeets := (h r.world).meets htwin hcaught
  change (after (f r.world) r).Twin (after (f' r'.world) r') ∧
    P (answer (f r.world) r) (answer (f' r'.world) r')
  rw [htwin.world]
  exact hmeets

theorem Mirrors.nextPass {f f' : Nat → Act β} (h : ∀ pass, Mirrors P (f pass) (f' pass)) :
    Mirrors P (Act.nextPass >>= f) (Act.nextPass >>= f') := by
  refine ⟨fun r => (h r.passes).grows { r with passes := r.passes + 1 },
    fun {r r'} htwin hcaught => ?_⟩
  have hnext : Run.Twin { r with passes := r.passes + 1 } { r' with passes := r.passes + 1 } :=
    ⟨htwin.world, rfl, htwin.journal⟩
  have hmeets := (h r.passes).meets hnext hcaught
  have heq : { r' with passes := r'.passes + 1 } = { r' with passes := r.passes + 1 } := by
    rw [htwin.passes]
  change (after (f r.passes) _).Twin (after (f' r'.passes) { r' with passes := r'.passes + 1 }) ∧
    P (answer (f r.passes) _) (answer (f' r'.passes) { r' with passes := r'.passes + 1 })
  rw [heq, htwin.passes]
  exact hmeets

/-- After a note that a callback starts, the callback is caught. -/
theorem Mirrors.record_bind_of_catches {f f' : Unit → Act β} {e e' : Event} {w : World}
    (he : e.Alike e') (hgrows : ∀ r : Run, r.Grows (after (f ()) r))
    (h : Moment.Catches ⟨e, w⟩ → Mirrors P (f ()) (f' ())) :
    Mirrors P (record e w >>= f) (record e' w >>= f') := by
  refine ⟨fun r => (Run.Grows.advance r e w).trans (hgrows _), fun {r r'} htwin hcaught => ?_⟩
  have hfirst := (hcaught.left (hgrows _)).catches
  exact (h hfirst).meets (htwin.advance he w) (hcaught.right (.advance r e w))

theorem Mirrors.record_bind {f f' : Unit → Act β} {e e' : Event} {w : World} (he : e.Alike e')
    (h : Mirrors P (f ()) (f' ())) : Mirrors P (record e w >>= f) (record e' w >>= f') :=
  .record_bind_of_catches he h.grows fun _ => h

theorem Mirrors.record {e e' : Event} (he : e.Alike e') (w : World) :
    Mirrors (Lifts fun _ _ => True) (record e w) (record e' w) :=
  ⟨fun r => .advance r e w, fun htwin _ => ⟨htwin.advance he w, .ok trivial⟩⟩

/-- What follows on related values is mirrored if it is for all of them. -/
theorem Mirrors.bind (ha : Mirrors (Lifts R) a a') (hrefl : ∀ x, R x x)
    (hP : ∀ i, P (.error i) (.error i)) (hf : ∀ x x', R x x' → Mirrors P (f x) (f' x')) :
    Mirrors P (a >>= f) (a' >>= f') := by
  have hlast : ∀ r, (after a r).Grows (after (a >>= f) r) := by
    intro r
    rw [after_bind_eq]
    split
    · exact (hf _ _ (hrefl _)).grows _
    · exact .refl _
  refine ⟨fun r => (ha.grows r).trans (hlast r), fun {r r'} htwin hcaught => ?_⟩
  obtain ⟨hmiddle, hanswer⟩ := ha.meets htwin (hcaught.left (hlast r))
  have hrest := hcaught.right (ha.grows r)
  rw [after_bind_eq] at hrest
  rw [after_bind_eq, after_bind_eq, answer_bind, answer_bind]
  cases hleft : answer a r with
  | ok x =>
    rw [hleft] at hanswer hrest
    cases hright : answer a' r' with
    | ok x' =>
      rw [hright] at hanswer
      cases hanswer with
      | ok hx => exact (hf x x' hx).meets hmiddle hrest
    | error i =>
      rw [hright] at hanswer
      cases hanswer
  | error i =>
    rw [hleft] at hanswer
    cases hright : answer a' r' with
    | ok x' =>
      rw [hright] at hanswer
      cases hanswer
    | error i' =>
      rw [hright] at hanswer
      cases hanswer
      exact ⟨hmiddle, hP i⟩

/-- How callbacks are compared: both come back or panic, or both are cut short. -/
def Ends (x x' : Except Interrupt Ending) : Prop :=
  x = .error .exhausted ↔ x' = .error .exhausted

/-- A caught callback comes back. -/
theorem Mirrors.attempt {a a' : Act Ending} (h : Mirrors Ends a a') :
    Mirrors (Lifts fun _ _ => True) (attempt a) (attempt a') := by
  have hanswer : ∀ (a : Act Ending) (r : Run),
      answer (Act.attempt a) r = .error .exhausted ∧ answer a r = .error .exhausted ∨
        (∃ ending, answer (Act.attempt a) r = .ok ending) ∧ answer a r ≠ .error .exhausted := by
    intro a r
    unfold answer Act.attempt
    cases a r with
    | ok ending r' => exact Or.inr ⟨⟨ending, rfl⟩, nofun⟩
    | error i r' =>
      cases i with
      | panic payload => exact Or.inr ⟨⟨_, rfl⟩, nofun⟩
      | exhausted => exact Or.inl ⟨rfl, rfl⟩
  constructor
  · intro r
    rw [after_attempt]
    exact h.grows r
  · intro r r' htwin hcaught
    rw [after_attempt] at hcaught
    obtain ⟨hend, hends⟩ := h.meets htwin hcaught
    rw [after_attempt, after_attempt]
    refine ⟨hend, ?_⟩
    rcases hanswer a r with ⟨hcut, hleft⟩ | ⟨⟨ending, hback⟩, hleft⟩
    · rcases hanswer a' r' with ⟨hcut', -⟩ | ⟨-, hright⟩
      · rw [hcut, hcut']
        exact .error _
      · exact absurd (hends.mp hleft) hright
    · rcases hanswer a' r' with ⟨-, hright⟩ | ⟨⟨ending', hback'⟩, -⟩
      · exact absurd (hends.mpr hright) hleft
      · rw [hback, hback']
        exact .ok trivial

theorem Mirrors.caught (h : Mirrors (Lifts R) a a') :
    Mirrors (Lifts (Lifts R)) (caught a) (caught a') := by
  have hanswer : ∀ (a : Act α) (r : Run), answer (Act.caught a) r = match answer a r with
      | .ok x => .ok (.ok x)
      | .error (.panic payload) => .ok (.error payload)
      | .error .exhausted => .error .exhausted := by
    intro a r
    unfold answer Act.caught
    cases a r with
    | ok x r' => rfl
    | error i r' => cases i <;> rfl
  constructor
  · intro r
    rw [after_caught]
    exact h.grows r
  · intro r r' htwin hcaught
    rw [after_caught] at hcaught
    obtain ⟨hend, hlifts⟩ := h.meets htwin hcaught
    rw [after_caught, after_caught, hanswer, hanswer]
    refine ⟨hend, ?_⟩
    generalize answer a r = x at hlifts
    generalize answer a' r' = x' at hlifts
    cases hlifts with
    | ok hx => exact .ok (.ok hx)
    | error i =>
      cases i with
      | panic payload => exact .ok (.error payload)
      | exhausted => exact .error _

theorem Mirrors.closing {Q : Except Interrupt α → Except Interrupt α → Prop} (h : Mirrors Q a a')
    (e : Event) (change : World → World) :
    Mirrors Q (closing e change a) (closing e change a') := by
  have hanswer : ∀ (a : Act α) (r : Run), answer (Act.closing e change a) r = answer a r := by
    intro a r
    unfold answer Act.closing
    cases a r <;> rfl
  have hlast : ∀ r, (after a r).Grows (after (Act.closing e change a) r) := by
    intro r
    rw [after_closing]
    exact .advance _ e _
  refine ⟨fun r => (h.grows r).trans (hlast r), fun {r r'} htwin hcaught => ?_⟩
  obtain ⟨hend, hQ⟩ := h.meets htwin (hcaught.left (hlast r))
  rw [after_closing, after_closing, hanswer, hanswer, hend.world]
  exact ⟨hend.advance (.same e) _, hQ⟩

end Act
end Timekeeping
