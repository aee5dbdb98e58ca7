import Timekeeping.Proofs.Run.Reachability

/-!
A timer that was cancelled does not start again until it is armed, however the
cancellation came between the steps of a firing or of a pass. The reason is that
starting and queueing again both ask the row, and the row says that it is out.
-/
namespace Timekeeping

/-- The timer is in no queue of any scheduler, and its row says so. -/
def World.Lacks (w : World) (t : TimerId) : Prop :=
  (w.timer t).queued = none ∧ ∀ s, t ∉ (w.scheduler s).items

/-- An operation removes the timer from its queue: a cancellation that answers that it did, or the
cancellation of all timers of a callback, of which the timer is one. -/
inductive Withdraws (t : TimerId) (r r' : Run) : Prop
  | one {call : Caller} {s : SchedulerId}
      (h : perform call (.cancel s t) r = .ok (.flag true) r') : Withdraws t r r'
  | every {call : Caller} {s : SchedulerId} {callback : Callback} {n : Nat}
      (h : perform call (.cancelEvery s callback) r = .ok (.count n) r')
      (ht : t ∈ r.world.matching s callback) : Withdraws t r r'

variable {r r' r₁ r₂ : Run} {call : Caller} {s : SchedulerId} {t : TimerId} {w : World}

theorem World.Sound.lacks_iff (h : w.Sound) : w.Lacks t ↔ (w.timer t).queued = none :=
  ⟨fun hlacks => hlacks.1, fun hqueued => ⟨hqueued, h.queued_eq_none_iff.mp hqueued⟩⟩

theorem perform_cancel_eq (hmade : r.world.made t = true) :
    perform call (.cancel s t) r = match r.world.cancel? s t with
      | some w => .ok (.flag true) (r.advance (.cancelled s [t]) w)
      | none => .ok (.flag false) r := by
  rw [perform_of_known (.cancel s t) hmade]
  unfold performKnown
  dsimp only
  rw [Act.world_bind]
  cases r.world.cancel? s t <;> rfl

/-- The removal is in the journal as one. -/
theorem Withdraws.exists_moment (h : Withdraws t r r') :
    ∃ m, r'.journal = m :: r.journal ∧ r'.world = m.world ∧ m.event.Cancels t := by
  cases h with
  | @one call s h =>
    by_cases hmade : r.world.made t = true
    · rw [perform_cancel_eq hmade] at h
      split at h
      · cases h
        exact ⟨_, rfl, rfl, List.mem_singleton.mpr rfl⟩
      · cases h
    · have hunknown : ¬ (Operation.cancel s t).timer?.all r.world.made = true := hmade
      unfold perform at h
      rw [Act.world_bind, if_neg hunknown] at h
      cases h
  | every h ht =>
    cases h
    exact ⟨_, rfl, rfl, ht⟩

/-- Conversely, a step that cancels just one timer is what a cancellation does. -/
theorem withdraws_of_step (call : Caller) {e : Event} (h : r.world.Step e w)
    (hsound : r.world.Sound) (honly : e.withdrawn = [t]) : Withdraws t r (r.advance e w) := by
  cases h with
  | cancelled s hts =>
    obtain rfl : _ = [t] := honly
    obtain ⟨kind, trigger, hmem⟩ := hts t List.mem_cons_self
    have hqueue := hsound.queueOf?_eq hmem
    have hmade : r.world.made t = true := hsound.made (by simp [(hsound.entry hmem).1])
    have hperform : perform call (.cancel s t) r =
        .ok (.flag true) (r.advance (.cancelled s [t]) (r.world.cancelAll s [t])) := by
      rw [perform_cancel_eq hmade]
      simp [World.cancel?, hqueue, World.cancelAll, World.cancel]
    exact .one hperform
  | _ => cases honly

/-- From the moment at which a timer is cancelled until it is armed, it does not start and is in
no queue. -/
theorem Reachable.lacks_of_cancels (h : Reachable r) {later between earlier : List Moment}
    {m : Moment} (hjournal : r.journal = later ++ (between ++ m :: earlier))
    (hcancel : m.event.Cancels t) (harm : ∀ m' ∈ between, ¬ m'.event.Arms t) :
    m.world.Lacks t ∧ ∀ m' ∈ between, ¬ m'.event.Starts t ∧ m'.world.Lacks t := by
  have hjournal' : r.journal = (later ++ between) ++ m :: earlier := by
    rw [hjournal, List.append_assoc]
  obtain ⟨w, hfresh, hearlier, hafter⟩ := h.path_to hjournal'
  obtain ⟨w', hbetween, -⟩ := hafter.split
  have hsound := (hearlier.sound hfresh.sound).1
  have hqueued : (m.world.timer t).queued = none := by
    cases hearlier with
    | cons hrest hstep => exact hstep.cancels (hrest.sound hfresh.sound).1 hcancel
  obtain ⟨-, hstays⟩ := hbetween.stays_out hsound hqueued harm
  refine ⟨hsound.lacks_iff.mpr hqueued, fun m' hm' => ?_⟩
  have hsound' := (hbetween.sound hsound).2 m' hm'
  exact ⟨(hstays m' hm').2, hsound'.lacks_iff.mpr (hstays m' hm').1⟩

/-- Wherever in a run a timer is cancelled, from outside or by a callback, it does not start and is
in no queue of any scheduler until it is armed again. -/
theorem Reachable.cancelled_stays_out (h : Reachable r) (hcancel : Withdraws t r₁ r₂)
    {later between : List Moment} (hjournal : r.journal = later ++ (between ++ r₂.journal))
    (harm : ∀ m ∈ between, ¬ m.event.Arms t) :
    r₂.world.Lacks t ∧ ∀ m ∈ between, ¬ m.event.Starts t ∧ m.world.Lacks t := by
  obtain ⟨m, hmoment, hworld, hcancels⟩ := hcancel.exists_moment
  rw [hmoment] at hjournal
  rw [hworld]
  exact h.lacks_of_cancels hjournal hcancels harm

/-- A timer that another one's callback cancels while a pass has yet to come to it. -/
theorem cancelled_stays_out_sampleRun :
    ∃ r₁ r₂, Withdraws ⟨3⟩ r₁ r₂ ∧
      sampleRun.journal = [] ++ (sampleRun.journal.take 17 ++ r₂.journal) ∧
      (∀ m ∈ sampleRun.journal.take 17, ¬ m.event.Arms ⟨3⟩) ∧
      ∀ m ∈ sampleRun.journal.take 17, ¬ m.event.Starts ⟨3⟩ ∧ m.world.Lacks ⟨3⟩ := by
  obtain ⟨m, hm, hjournal⟩ := exists_split_at sampleRun.journal (i := 17) (by decide +kernel)
  have honly : ∀ m ∈ sampleRun.journal[17]?, m.event.withdrawn = [⟨3⟩] := by decide +kernel
  have harm : ∀ m ∈ sampleRun.journal.take 17, ¬ m.event.Arms ⟨3⟩ := by decide +kernel
  obtain ⟨w, hfresh, hpath, -⟩ := reachable_sampleRun.path_to hjournal
  have hwithdrawn := honly m hm
  cases hpath with
  | @cons _ w₁ w₂ e hrest hstep =>
    have hsound := (hrest.sound hfresh.sound).1
    let r₁ : Run := { world := w₁, journal := sampleRun.journal.drop 18 }
    have hwithdraws : Withdraws ⟨3⟩ r₁ (r₁.advance e w₂) :=
      withdraws_of_step (fun _ _ _ _ => return .succeeded) hstep hsound hwithdrawn
    have hsplit : sampleRun.journal =
        [] ++ (sampleRun.journal.take 17 ++ (r₁.advance e w₂).journal) := hjournal
    exact ⟨r₁, _, hwithdraws, hsplit, harm,
      (reachable_sampleRun.cancelled_stays_out hwithdraws hsplit harm).2⟩

end Timekeeping
