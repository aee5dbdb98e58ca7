import Timekeeping.Proofs.Run.Picks

/-!
How a pass comes to the entries of its snapshot. While nothing due is left it
goes on, so it comes to every entry that is due. It passes over one that is not
live then, and starts the timer of one that is live and still waits.
-/
namespace Timekeeping

/-- The timer that a pass is firing after the given moments: its last own moment was to pick it. -/
def underWay (pass : Nat) : List Moment → Option TimerId
  | [] => none
  | m :: earlier =>
    if m.event.pass? = some pass then (m.picked? pass).map Picked.timer else underWay pass earlier

/-- A pass over a scheduler comes to an entry: it passes over it or picks it. -/
def Event.Reaches (pass : Nat) (s : SchedulerId) (x : TimerId × Trigger) : Event → Prop
  | passedOver pass' s' entries => pass' = pass ∧ s' = s ∧ x ∈ entries
  | picked pass' s' t trigger _ => pass' = pass ∧ s' = s ∧ (t, trigger) = x
  | _ => False

theorem Event.Reaches.not_removes {pass : Nat} {s : SchedulerId} {x : TimerId × Trigger} {e : Event}
    {t : TimerId} (h : e.Reaches pass s x) : ¬ e.Removes t := by
  cases e with
  | passedOver pass' s' entries => exact id
  | picked pass' s' u trigger wait => exact id
  | _ => exact h.elim

variable {pass : Nat} {s : SchedulerId} {whole : Bool} {w w' : World} {p : Snapshot}
  {next : Snapshot.Pick} {ms fired : List Moment} {t u : TimerId} {x : TimerId × Trigger}

theorem underWay_append_of_foreign {ms' : List Moment}
    (h : ∀ m ∈ ms, m.event.pass? ≠ some pass) :
    underWay pass (ms ++ ms') = underWay pass ms' := by
  induction ms with
  | nil => rfl
  | cons m rest ih =>
    rw [List.cons_append, underWay, if_neg (h m List.mem_cons_self)]
    exact ih fun m hm => h m (List.mem_cons_of_mem _ hm)

/-- What came before the pick does not matter. -/
theorem underWay_append {ms' : List Moment} (h : underWay pass ms = some u) :
    underWay pass (ms ++ ms') = some u := by
  induction ms with
  | nil => cases h
  | cons m rest ih =>
    rw [List.cons_append, underWay]
    rw [underWay] at h
    split
    · rename_i hmine
      rw [if_pos hmine] at h
      exact h
    · rename_i hforeign
      rw [if_neg hforeign] at h
      exact ih h

theorem exists_picked_of_underWay (h : underWay pass ms = some u) :
    ∃ m ∈ ms, ∃ k ∈ m.picked? pass, k.timer = u := by
  induction ms with
  | nil => cases h
  | cons m rest ih =>
    rw [underWay] at h
    split at h
    · obtain ⟨k, hk, heq⟩ := Option.map_eq_some_iff.mp h
      exact ⟨m, List.mem_cons_self, k, hk, heq⟩
    · obtain ⟨m', hm', hk⟩ := ih h
      exact ⟨m', List.mem_cons_of_mem _ hm', hk⟩

theorem Turn.underWay_eq (h : Turn pass s w p next fired w') :
    underWay pass (turn pass s w p next fired) = some next.timer := by
  unfold turn
  rw [underWay_append_of_foreign h.fires.foreign]
  simp [underWay, Event.pass?, Moment.picked?]

/-- A pass that did not come to its end is left in the firing of a timer. -/
theorem Sweeps.underWay_ne_none (h : Sweeps pass s whole w p ms) (hwhole : whole = false) :
    ∃ u, underWay pass ms = some u := by
  induction h with
  | spent hsize => cases hwhole
  | stopped hstop => cases hwhole
  | broken hturn => exact ⟨_, hturn.underWay_eq⟩
  | turned hturn _ ih =>
    obtain ⟨u, hu⟩ := ih hwhole
    exact ⟨u, underWay_append hu⟩

theorem append_eq_append_cons {α : Type} {l₁ l₂ l₃ l₄ : List α} {a : α}
    (h : l₁ ++ l₂ = l₃ ++ a :: l₄) :
    (∃ l, l₁ = l₃ ++ a :: l ∧ l₄ = l ++ l₂) ∨ ∃ l, l₂ = l ++ a :: l₄ := by
  rcases List.append_eq_append_iff.mp h with ⟨l, -, h₂⟩ | ⟨l, h₁, h₂⟩
  · exact Or.inr ⟨l, h₂⟩
  · cases l with
    | nil => exact Or.inr ⟨[], h₂.symm⟩
    | cons b l =>
      rw [List.cons_append, List.cons.injEq] at h₂
      obtain ⟨rfl, rfl⟩ := h₂
      exact Or.inl ⟨l, h₁, rfl⟩

theorem Turn.exists_underWay (h : Turn pass s w p next fired w') {later earlier : List Moment}
    {m : Moment} (hsplit : turn pass s w p next fired = later ++ m :: earlier)
    (hforeign : m.event.pass? ≠ some pass) : ∃ u, underWay pass earlier = some u := by
  unfold turn at hsplit
  rcases append_eq_append_cons hsplit with ⟨mid, hfired, rfl⟩ | ⟨l, hl⟩
  · refine ⟨next.timer, ?_⟩
    rw [underWay_append_of_foreign fun m' hm' => h.fires.foreign m' (by simp [hfired, hm'])]
    simp [underWay, Event.pass?, Moment.picked?]
  · have hmem : m ∈ l ++ m :: earlier := by simp
    rw [← hl] at hmem
    simp only [List.mem_cons, List.not_mem_nil, or_false] at hmem
    rcases hmem with rfl | rfl
    · exact absurd rfl hforeign
    · exact absurd rfl hforeign

/-- What is in the journal of a pass without belonging to it belongs to a firing. -/
theorem Sweeps.exists_underWay (h : Sweeps pass s whole w p ms) {later earlier : List Moment}
    {m : Moment} (hsplit : ms = later ++ m :: earlier) (hforeign : m.event.pass? ≠ some pass) :
    ∃ u, underWay pass earlier = some u := by
  induction h generalizing later earlier with
  | spent hsize => simp at hsplit
  | stopped hstop =>
    have hmem : m ∈ later ++ m :: earlier := by simp
    rw [← hsplit] at hmem
    obtain rfl := List.mem_singleton.mp hmem
    exact absurd rfl hforeign
  | broken hturn => exact hturn.exists_underWay hsplit hforeign
  | turned hturn _ ih =>
    rcases append_eq_append_cons hsplit with ⟨mid, hrest, rfl⟩ | ⟨l, hl⟩
    · obtain ⟨u, hu⟩ := ih hrest
      exact ⟨u, underWay_append hu⟩
    · exact hturn.exists_underWay hl hforeign

/-- Among these moments a pass comes to an entry, which it did not pick before. It starts the timer
if that is ready then. -/
structure Comes (pass : Nat) (s : SchedulerId) (x : TimerId × Trigger) (ms after : List Moment)
    (here : Moment) (before : List Moment) : Prop where
  split : ms = after ++ here :: before
  reaches : here.event.Reaches pass s x
  fresh : ∀ m ∈ before, ∀ k ∈ m.picked? pass, k.timer ≠ x.1
  starts : here.world.Sound → here.world.Ready s x → (∃ k ∈ here.picked? pass, k.timer = x.1) ∧
    ∃ rest m, after = rest ++ [m] ∧ m.event.Starts x.1

theorem Comes.prepend {after before : List Moment} {here : Moment}
    (h : Comes pass s x ms after here before) (later : List Moment) :
    Comes pass s x (later ++ ms) (later ++ after) here before := by
  refine ⟨?_, h.reaches, h.fresh, fun hw hready => ?_⟩
  · rw [h.split, List.append_assoc]
  · obtain ⟨hpicked, rest, m, rfl, hstart⟩ := h.starts hw hready
    exact ⟨hpicked, later ++ rest, m, (List.append_assoc ..).symm, hstart⟩

theorem Comes.append {after before earlier : List Moment} {here : Moment}
    (h : Comes pass s x ms after here before)
    (hearlier : ∀ m ∈ earlier, ∀ k ∈ m.picked? pass, k.timer ≠ x.1) :
    Comes pass s x (ms ++ earlier) after here (before ++ earlier) := by
  refine ⟨?_, h.reaches, fun m hm => ?_, h.starts⟩
  · rw [h.split, List.append_assoc, List.cons_append]
  · rcases List.mem_append.mp hm with hm | hm
    · exact h.fresh m hm
    · exact hearlier m hm

theorem Turn.timer_eq (h : Turn pass s w p next fired w') {m : Moment}
    (hm : m ∈ turn pass s w p next fired) {k : Picked} (hk : k ∈ m.picked? pass) :
    k.timer = next.timer := by
  unfold turn at hm
  rcases List.mem_append.mp hm with hm | hm
  · exact absurd (pass?_of_picked? hk) (h.fires.foreign m hm)
  · simp only [List.mem_cons, List.not_mem_nil, or_false] at hm
    rcases hm with rfl | rfl
    · simp only [Moment.picked?, if_true, Option.mem_some_iff] at hk
      rw [← hk]
    · cases hk

theorem comes_to_stale (hstale : x ∈ p.stale w) (hdead : ¬ w.Live x) :
    Comes pass s x [⟨.passedOver pass s (p.stale w), w⟩] []
      ⟨.passedOver pass s (p.stale w), w⟩ [] :=
  ⟨rfl, ⟨rfl, rfl, hstale⟩, fun _ hm => absurd hm List.not_mem_nil,
    fun hw hready => absurd (hready.live hw) hdead⟩

/-- A turn comes to an entry, or leaves it for the next turns. -/
theorem Turn.comes (h : Turn pass s w p next fired w') (hobserved : p.Observed)
    {kind : QueueKind} (hx : x ∈ p.marks kind) :
    x ∈ next.rest.marks kind ∨
      ∃ after here before, Comes pass s x (turn pass s w p next fired) after here before := by
  rcases Snapshot.stale_or_mem_skip w hx with ⟨hstale, hdead⟩ | hleft
  · have hturn : turn pass s w p next fired =
        (fired ++ [⟨.picked pass s next.timer next.trigger next.wait, w⟩]) ++
          [⟨.passedOver pass s (p.stale w), w⟩] := by simp [turn]
    rw [hturn]
    exact Or.inr ⟨_, _, _, (comes_to_stale hstale hdead).prepend _⟩
  · obtain ⟨htakes, -⟩ := Snapshot.takes_of_skip hobserved h.pick
    rcases htakes.mem_cases hleft with rfl | hrest
    · refine Or.inr ⟨fired, ⟨.picked pass s next.timer next.trigger next.wait, w⟩,
        [⟨.passedOver pass s (p.stale w), w⟩], rfl, ⟨rfl, rfl, rfl⟩, ?_, fun hw hready => ⟨?_, ?_⟩⟩
      · intro m hm k hk
        obtain rfl := List.mem_singleton.mp hm
        cases hk
      · exact ⟨⟨s, next.timer, next.trigger, next.wait, w⟩, by simp [Moment.picked?], rfl⟩
      · obtain ⟨start, w₁, htake⟩ := hw.exists_take_eq_started hready.2
        obtain ⟨m, rest, hfired, hstart⟩ := h.fires.starts htake
        exact ⟨rest, m, hfired, hstart⟩
    · exact Or.inl hrest

/-- A pass that came to its end has come to all that is due. -/
theorem Sweeps.comes (h : Sweeps pass s whole w p ms) (hwhole : whole = true)
    (hobserved : p.Observed) (hsorted : p.Sorted) (hdistinct : p.Distinct) {kind : QueueKind}
    (hx : x ∈ p.marks kind) (hdue : p.lead x.2 ≤ 0) :
    ∃ after here before, Comes pass s x ms after here before := by
  induction h with
  | @spent w p hsize =>
    rw [Snapshot.size_eq] at hsize
    have hempty : (p.marks kind).length = 0 := by cases kind <;> omega
    rw [List.length_eq_zero_iff.mp hempty] at hx
    cases hx
  | @stopped w p hstop =>
    rcases Snapshot.stale_or_mem_skip w hx with ⟨hstale, hdead⟩ | hleft
    · exact ⟨_, _, _, comes_to_stale hstale hdead⟩
    · have hskip := p.skip_within w
      cases hpick : (p.skip w).pick? with
      | none =>
        rw [Snapshot.marks_of_pick?_eq_none (hskip.observed hobserved) hpick] at hleft
        cases hleft
      | some next =>
        obtain ⟨htakes, -⟩ := Snapshot.takes_of_skip hobserved hpick
        have hlead := htakes.positive (hskip.pairwise (hsorted kind)) (hstop next hpick) hleft
        rw [hskip.lead] at hlead
        exact absurd hlead (Int.not_lt.mpr hdue)
  | broken hturn => cases hwhole
  | @turned whole w w' p next fired rest hturn _ ih =>
    obtain ⟨htakes, hwithin⟩ := Snapshot.takes_of_skip hobserved hturn.pick
    rcases hturn.comes hobserved hx with hrest | ⟨after, here, before, hcomes⟩
    · have hdue' : next.rest.lead x.2 ≤ 0 := by
        rw [hwithin.lead]
        exact hdue
      obtain ⟨after, here, before, hcomes⟩ := ih hwhole (hwithin.observed hobserved)
        (hwithin.sorted hsorted) (hwithin.distinct hdistinct) hrest hdue'
      have hne := htakes.ne_of_mem ((p.skip_within w).distinct hdistinct) hrest
      refine ⟨_, _, _, hcomes.append fun m hm k hk heq => ?_⟩
      exact hne (heq.symm.trans (hturn.timer_eq hm hk))
    · exact ⟨_, _, _, hcomes.prepend rest⟩

/-- If what a pass fired has come back, the pass has come to its end. -/
theorem Swept.whole_eq_true {r : Run} {began : Moment} {later earlier : List Moment}
    (h : Swept r pass s whole began ms later earlier)
    (hreturned : underWay pass r.journal = none) : whole = true := by
  cases hwhole : whole with
  | true => rfl
  | false =>
    obtain ⟨u, hu⟩ := h.sweeps.underWay_ne_none hwhole
    have hforeign : ∀ m ∈ later, m.event.pass? ≠ some pass := by
      intro m hm hmine
      obtain ⟨htrue, -⟩ := h.after m hm hmine
      rw [hwhole] at htrue
      cases htrue
    rw [h.journal, underWay_append_of_foreign hforeign, underWay_append hu] at hreturned
    cases hreturned

end Timekeeping
