import Timekeeping.Proofs.Run.Closure
import Timekeeping.Proofs.Run.Settings

/-!
What callbacks do to a timer from outside. They arm, cancel, fire or adjust it, or they begin
an idle period. Nothing else touches a timer but the end of a firing of it, and no callback
ends a firing that it has not started.
-/
namespace Timekeeping

open Act

namespace Event

/-- The timer of which a firing comes to its end. -/
def settled? : Event → Option TimerId
  | settled _ t _ => some t
  | _ => none

theorem Starts.disturbs {e : Event} {t : TimerId} (h : e.Starts t) : e.Disturbs t := by
  cases e with
  | started s u kind callback call args => exact h
  | _ => exact h.elim

theorem settles_of_settled? {e : Event} {t : TimerId} (h : e.settled? = some t) :
    e.settles = true := by
  cases e with
  | settled s u again => rfl
  | _ => cases h

end Event

namespace World

variable {w w' w₁ w₂ : World} {e : Event} {t : TimerId} {ms : List Moment}

/-- What touches a timer that exists disturbs it or ends a firing of it. -/
theorem Step.disturbs_of_touches (h : w.Step e w') (hw : w.Sound) (hmade : w.made t = true)
    (htouch : e.Touches w' t) : e.Disturbs t ∨ e.settled? = some t := by
  cases h with
  | created r hr => exact absurd htouch (ne_of_made hmade)
  | adjusted hadjust => exact Or.inl htouch
  | armed s triggered hrow hmade' => exact Or.inl htouch
  | scheduled s triggered hr => exact Or.inl htouch
  | cancelled s hts => exact Or.inl htouch
  | idleStarted s => exact Or.inl trivial
  | started htake => exact Or.inl htouch
  | settled s u start => exact Or.inr (congrArg some htouch)
  | emptied htake =>
    obtain ⟨kind, hkind, hnone, -⟩ := take_eq_idle htake
    have hqueued := ((queueOf?_eq_some_iff _ _ _ _).mp hkind).1
    exact absurd hnone (hw.callback (by simp [hqueued]))
  | _ => exact htouch.elim

/-- Along a path nothing touches a timer that nothing disturbs and of which no firing ends. -/
theorem Path.untouched (h : w₁.Path ms w₂) (hw : w₁.Sound) (hmade : w₁.made t = true)
    (hquiet : ∀ m ∈ ms, ¬ m.event.Disturbs t ∧ m.event.settled? ≠ some t) :
    w₂.made t = true ∧ ∀ m ∈ ms, ¬ m.event.Touches m.world t := by
  induction h with
  | nil => exact ⟨hmade, fun m hm => absurd hm List.not_mem_nil⟩
  | cons hrest hstep ih =>
    obtain ⟨hmade', hall⟩ := ih fun m hm => hquiet m (List.mem_cons_of_mem _ hm)
    obtain ⟨hdisturbs, hsettled⟩ := hquiet _ List.mem_cons_self
    refine ⟨hstep.made hmade', fun m hm htouch => ?_⟩
    rcases List.mem_cons.mp hm with rfl | hm
    · rcases hstep.disturbs_of_touches (hrest.sound hw).1 hmade' htouch with hdo | hend
      · exact hdisturbs hdo
      · exact hsettled hend
    · exact hall m hm htouch

end World

namespace Run

/-- Where a firing of the timer ends between two runs, one has started there. -/
def Bracketed (t : TimerId) (r r' : Run) : Prop :=
  ∃ since, r'.journal = since ++ r.journal ∧
    ((∃ m ∈ since, m.event.settled? = some t) → ∃ m ∈ since, m.event.Starts t)

variable {t : TimerId} {r r' r₁ r₂ r₃ : Run}

theorem Bracketed.trans (h : Bracketed t r₁ r₂) (h' : Bracketed t r₂ r₃) :
    Bracketed t r₁ r₃ := by
  obtain ⟨since, hjournal, hends⟩ := h
  obtain ⟨since', hjournal', hends'⟩ := h'
  refine ⟨since' ++ since, by rw [hjournal', hjournal, List.append_assoc], ?_⟩
  rintro ⟨m, hm, hend⟩
  rcases List.mem_append.mp hm with hm | hm
  · obtain ⟨m', hm', hstarts⟩ := hends' ⟨m, hm, hend⟩
    exact ⟨m', List.mem_append_left _ hm', hstarts⟩
  · obtain ⟨m', hm', hstarts⟩ := hends ⟨m, hm, hend⟩
    exact ⟨m', List.mem_append_right _ hm', hstarts⟩

/-- The end of a firing stands in the journal after its start. -/
theorem closed_bracketed (own : Option Nat) (t : TimerId) :
    Closed own (fun _ => True) (Bracketed t) where
  refl r := ⟨[], rfl, fun ⟨m, hm, _⟩ => absurd hm List.not_mem_nil⟩
  trans := .trans
  advance {r e w} _ hwithin := by
    refine ⟨[⟨e, w⟩], rfl, fun ⟨m, hm, hend⟩ => ?_⟩
    obtain rfl := List.mem_singleton.mp hm
    cases hwithin.settles.symm.trans (Event.settles_of_settled? hend)
  settle {r back s u start w} _ _ hback _ := by
    obtain ⟨since, hjournal, hends⟩ := hback
    obtain ⟨first, hfirst, hstarts, hopens⟩ : ∃ first : Moment,
        (r.starting s u start w).journal = first :: r.journal ∧ first.event.Starts u ∧
          first.event.settled? = none := ⟨_, rfl, rfl, rfl⟩
    rw [hfirst] at hjournal
    refine ⟨⟨.settled s u start.again, back.world.settle s u start⟩ :: (since ++ [first]), ?_, ?_⟩
    · change _ :: back.journal = _
      rw [hjournal, List.cons_append, List.append_assoc]
      rfl
    rintro ⟨m, hm, hend⟩
    have hmem : first ∈ since ++ [first] := List.mem_append_right _ List.mem_cons_self
    by_cases hu : u = t
    · exact ⟨first, List.mem_cons_of_mem _ hmem, hu ▸ hstarts⟩
    -- The firing that ends is another one's, so the end that was found is one in `since`.
    · rcases List.mem_cons.mp hm with rfl | hm
      · exact absurd (Option.some.inj hend) hu
      rcases List.mem_append.mp hm with hm | hm
      · obtain ⟨m', hm', hstarts'⟩ := hends ⟨m, hm, hend⟩
        exact ⟨m', List.mem_cons_of_mem _ (List.mem_append_left _ hm'), hstarts'⟩
      · obtain rfl := List.mem_singleton.mp hm
        cases hopens.symm.trans hend

theorem bracketed_caller (behaviour : Behaviour) (depth : Nat) (t : TimerId) :
    (caller behaviour depth).Keeps (Bracketed t) := by
  have hkeeps := (closed_bracketed none t).caller
    (fun _ hcall _ hs loop r => (closed_bracketed (some r.passes) t).drain hcall hs loop)
    behaviour.within_all depth
  exact fun s callback number args r => hkeeps s trivial callback number args r

/-- In moments that lead to a bracketed run no firing of the timer ends, if nothing disturbs it. -/
theorem Bracketed.settled?_ne (h : Bracketed t r r') {ms : List Moment}
    (hjournal : r'.journal = ms ++ r.journal) (hquiet : ∀ m ∈ ms, ¬ m.event.Disturbs t) :
    ∀ m ∈ ms, m.event.settled? ≠ some t := by
  obtain ⟨since, hjournal', hends⟩ := h
  obtain rfl : ms = since := List.append_cancel_right (hjournal.symm.trans hjournal')
  intro m hm hend
  obtain ⟨m', hm', hstarts⟩ := hends ⟨m, hm, hend⟩
  exact hquiet m' hm' hstarts.disturbs

end Run

end Timekeeping
