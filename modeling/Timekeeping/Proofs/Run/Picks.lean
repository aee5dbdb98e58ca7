import Timekeeping.Proofs.Run.Sweeps

/-!
The timers that a pass picks to be fired, in the order of time. They are taken
off the fronts of the two queues of its snapshot, so they come from it, each at
most once, and in its order. Each pick has one fire call, and the start that this
makes stands right after it in the journal.
-/
namespace Timekeeping

open Act

/-- A timer that a pass picked, with its trigger and its wait, and the world in which it did. -/
structure Picked where
  scheduler : SchedulerId
  timer : TimerId
  trigger : Trigger
  wait : Duration
  world : World

def Picked.mark (k : Picked) : TimerId × Trigger := (k.timer, k.trigger)

/-- What the call fires. -/
def FireCall.picked (s : SchedulerId) (c : FireCall) : Picked :=
  ⟨s, c.timer, c.trigger, c.wait, c.begun.world⟩

/-- What the pass picked at a moment. -/
def Moment.picked? (pass : Nat) (m : Moment) : Option Picked :=
  match m.event with
  | .picked pass' s t trigger wait =>
    if pass' = pass then some ⟨s, t, trigger, wait, m.world⟩ else none
  | _ => none

/-- What a pass picked, the first first. -/
def picks (pass : Nat) (journal : List Moment) : List Picked :=
  (journal.filterMap (Moment.picked? pass)).reverse

/-- The timer that a pass picks, and the scheduler that it is over. -/
def Event.picks? : Event → Option (SchedulerId × TimerId)
  | picked _ s t _ _ => some (s, t)
  | _ => none

def Event.Picks (e : Event) (s : SchedulerId) (t : TimerId) : Prop := e.picks? = some (s, t)

instance (e : Event) (s : SchedulerId) (t : TimerId) : Decidable (e.Picks s t) :=
  inferInstanceAs (Decidable (e.picks? = some (s, t)))

/-- A pass over the scheduler starts the timer: it has picked it just before. -/
def PassStarts (s : SchedulerId) (t : TimerId) (m : Moment) (earlier : List Moment) : Prop :=
  m.event.Starts t ∧ ∃ p ∈ earlier.head?, p.event.Picks s t

instance (s : SchedulerId) (t : TimerId) (m : Moment) (earlier : List Moment) :
    Decidable (PassStarts s t m earlier) :=
  inferInstanceAs (Decidable (_ ∧ _))

/-- No pass fires the timer at a moment. None picks it then, and none starts it. -/
def Unfired (t : TimerId) (m : Moment) (earlier : List Moment) : Prop :=
  ∀ s, ¬ m.event.Picks s t ∧ ¬ PassStarts s t m earlier

variable {call : Caller} {pass : Nat} {s : SchedulerId} {whole : Bool} {w w' : World}
  {p : Snapshot} {ms : List Moment} {ks : List Picked} {cs : List FireCall} {r stop : Run}
  {result : Except Interrupt (Option Duration)}

theorem pass?_of_picked? {m : Moment} {k : Picked} (h : m.picked? pass = some k) :
    m.event.pass? = some pass := by
  unfold Moment.picked? at h
  split at h
  · rename_i heq
    split at h
    · rename_i hpass
      rw [heq, ← hpass]
      rfl
    · cases h
  · cases h

theorem world_of_picked? {m : Moment} {k : Picked} (h : m.picked? pass = some k) :
    k.world = m.world := by
  unfold Moment.picked? at h
  split at h
  · split at h
    · cases h
      rfl
    · cases h
  · cases h

theorem mem_picks {m : Moment} {k : Picked} (hm : m ∈ ms) (hk : k ∈ m.picked? pass) :
    k ∈ picks pass ms :=
  List.mem_reverse.mpr (List.mem_filterMap.mpr ⟨m, hm, hk⟩)

theorem picks_append (pass : Nat) (later earlier : List Moment) :
    picks pass (later ++ earlier) = picks pass earlier ++ picks pass later := by
  simp [picks, List.filterMap_append, List.reverse_append]

theorem picks_eq_nil (h : ∀ m ∈ ms, m.picked? pass = none) : picks pass ms = [] := by
  simp [picks, List.filterMap_eq_nil_iff.mpr h]

theorem picks_of_foreign (h : ∀ m ∈ ms, m.event.pass? ≠ some pass) : picks pass ms = [] := by
  refine picks_eq_nil fun m hm => ?_
  cases hk : m.picked? pass with
  | none => rfl
  | some k => exact absurd (pass?_of_picked? hk) (h m hm)

theorem Turn.picks_eq {next : Snapshot.Pick} {fired : List Moment}
    (h : Turn pass s w p next fired w') :
    picks pass (turn pass s w p next fired) =
      [⟨s, next.timer, next.trigger, next.wait, w⟩] := by
  unfold turn
  rw [picks_append, picks_of_foreign h.fires.foreign]
  simp [picks, Moment.picked?]

/-- The picks of a pass over a snapshot, each in the world in which it was made. -/
inductive Choices (s : SchedulerId) : Snapshot → List Picked → Prop
  | nil {p : Snapshot} : Choices s p []
  | cons {w : World} {p : Snapshot} {next : Snapshot.Pick} {ks : List Picked}
      (hpick : (p.skip w).pick? = some next) (hdue : ¬ next.wait.IsPositive)
      (hrest : Choices s next.rest ks) :
      Choices s p (⟨s, next.timer, next.trigger, next.wait, w⟩ :: ks)

theorem Sweeps.choices (h : Sweeps pass s whole w p ms) : Choices s p (picks pass ms) := by
  induction h with
  | spent hsize => exact .nil
  | stopped hstop => exact .nil
  | broken hturn =>
    rw [hturn.picks_eq]
    exact .cons hturn.pick hturn.due .nil
  | turned hturn _ ih =>
    rw [picks_append, hturn.picks_eq]
    exact .cons hturn.pick hturn.due ih

theorem Serves.choices (h : Serves call pass s r p cs result stop) :
    Choices s p (cs.map (FireCall.picked s)) := by
  induction h with
  | spent hsize => exact .nil
  | stopped hstop => exact .nil
  | broken hpick hdue hfire => exact .cons hpick hdue .nil
  | turned hpick hdue hfire _ ih => exact .cons hpick hdue ih

/-- Firing a timer adds no picks to those of a pass that has begun. -/
theorem picks_fire (hcall : call.Keeps (Run.Continues none)) (t : TimerId) (hpass : pass < r.passes) :
    picks pass (after (fire call s t) r).journal = picks pass r.journal ∧
      pass < (after (fire call s t) r).passes := by
  obtain ⟨since, hext⟩ := continues_fire hcall s t r
  have hforeign : ∀ m ∈ since, m.event.pass? ≠ some pass := by
    intro m hm hmine
    rcases hext.owner m hm pass hmine with hnone | hnew
    · cases hnone
    · exact absurd hpass (Nat.not_lt.mpr hnew)
  rw [hext.journal, picks_append, picks_of_foreign hforeign, List.append_nil]
  exact ⟨rfl, hpass.trans_le hext.passes⟩

/-- The picks that a pass notes are those of its fire calls: there is one call for each of them, and
none without one. -/
theorem Makes.picks_eq {i : Option Interrupt} (h : Makes call pass s r cs i stop)
    (hcall : call.Keeps (Run.Continues none)) (hpass : pass < r.passes) :
    picks pass stop.journal = picks pass r.journal ++ cs.map (FireCall.picked s) := by
  have hnoted : ∀ {r : Run} {c : FireCall},
      c.begun = r.advance (.picked pass s c.timer c.trigger c.wait) r.world → pass < r.passes →
      picks pass (after (fire call s c.timer) c.begun).journal =
          picks pass r.journal ++ [c.picked s] ∧
        pass < (after (fire call s c.timer) c.begun).passes := by
    intro r c hpick hpass
    have hbegun : pass < c.begun.passes := by
      rw [hpick]
      exact hpass
    obtain ⟨hpicks, hpasses⟩ := picks_fire (s := s) hcall c.timer hbegun
    refine ⟨hpicks.trans ?_, hpasses⟩
    simp [picks, hpick, FireCall.picked, Moment.picked?, Run.advance]
  induction h with
  | done => simp
  | @noted r stop cs i entries _ ih =>
    have hover : picks pass (r.advance (.passedOver pass s entries) r.world).journal =
        picks pass r.journal := by
      rw [picks, Run.advance, List.filterMap_cons_none rfl, ← picks]
    rw [ih hpass, hover]
  | broken hpick hfire =>
    obtain ⟨hpicks, -⟩ := hnoted hpick hpass
    rw [after, hfire] at hpicks
    exact hpicks
  | returned hpick hfire _ ih =>
    obtain ⟨hpicks, hpasses⟩ := hnoted hpick hpass
    rw [after, hfire] at hpicks hpasses
    rw [ih hpasses, hpicks, List.append_assoc, List.singleton_append, List.map_cons]

/-- The first thing that a fire call does, unless it is skipped, is that the pass starts the timer. -/
theorem FireCall.Starts.exists_passStarts {c : FireCall} (h : c.Starts call s)
    (hcall : call.Keeps (Run.Continues none))
    (hpick : c.begun = r.advance (.picked pass s c.timer c.trigger c.wait) r.world) :
    ∃ later m, (after (fire call s c.timer) c.begun).journal = later ++ m :: c.begun.journal ∧
      PassStarts s c.timer m c.begun.journal := by
  obtain ⟨start, w, back, htake, hback, hend⟩ := h
  have hpicks : ∃ p ∈ c.begun.journal.head?, p.event.Picks s c.timer := by
    rw [hpick]
    exact ⟨_, rfl, rfl⟩
  obtain ⟨since, hinvokes⟩ := invokes_of_take hcall htake
  rw [← hback] at hinvokes
  have hstarted : ∃ m, back.journal = since ++ m :: c.begun.journal ∧ m.event.Starts c.timer :=
    ⟨_, hinvokes.journal, rfl⟩
  obtain ⟨m, hjournal, hstarts⟩ := hstarted
  rcases hend with hend | hend
  · exact ⟨since, m, hend ▸ hjournal, hstarts, hpicks⟩
  · obtain ⟨ended, hended⟩ : ∃ ended, (back.settling s c.timer start).journal =
      ended :: back.journal := ⟨_, rfl⟩
    refine ⟨ended :: since, m, ?_, hstarts, hpicks⟩
    rw [hend, hended, hjournal, List.cons_append]

/-- What a pass does itself goes on from its journal. -/
theorem Makes.exists_journal_eq {i : Option Interrupt} (h : Makes call pass s r cs i stop)
    (hcall : call.Keeps (Run.Continues none)) : ∃ since, stop.journal = since ++ r.journal := by
  have hfired : ∀ {r : Run} {c : FireCall},
      c.begun = r.advance (.picked pass s c.timer c.trigger c.wait) r.world →
      ∃ since, (after (fire call s c.timer) c.begun).journal = since ++ r.journal := by
    intro r c hpick
    obtain ⟨since, hext⟩ := continues_fire hcall s c.timer c.begun
    refine ⟨since ++ [⟨.picked pass s c.timer c.trigger c.wait, r.world⟩], ?_⟩
    rw [hext.journal, hpick, List.append_assoc]
    rfl
  induction h with
  | done => exact ⟨[], rfl⟩
  | @noted r stop cs i entries _ ih =>
    obtain ⟨since, hrest⟩ := ih
    refine ⟨since ++ [⟨.passedOver pass s entries, r.world⟩], ?_⟩
    rw [hrest, List.append_assoc]
    rfl
  | broken hpick hfire =>
    have hback := hfired hpick
    rw [after, hfire] at hback
    exact hback
  | returned hpick hfire _ ih =>
    obtain ⟨since, hback⟩ := hfired hpick
    obtain ⟨since', hrest⟩ := ih
    rw [after, hfire] at hback
    exact ⟨since' ++ since, by rw [hrest, hback, List.append_assoc]⟩

/-- Each start that a pass makes stays in its journal, right after the pick. -/
theorem Makes.passStarts {i : Option Interrupt} (h : Makes call pass s r cs i stop)
    (hcall : call.Keeps (Run.Continues none)) {c : FireCall} (hc : c ∈ cs)
    (hstarts : c.Starts call s) :
    ∃ later m, stop.journal = later ++ m :: c.begun.journal ∧
      PassStarts s c.timer m c.begun.journal := by
  induction h with
  | done => cases hc
  | noted _ ih => exact ih hc
  | broken hpick hfire =>
    obtain rfl := List.mem_singleton.mp hc
    have hstarted := hstarts.exists_passStarts hcall hpick
    rw [after, hfire] at hstarted
    exact hstarted
  | returned hpick hfire hrest ih =>
    rcases List.mem_cons.mp hc with rfl | hc
    · obtain ⟨later, m, hback, hpass⟩ := hstarts.exists_passStarts hcall hpick
      obtain ⟨since, hstop⟩ := hrest.exists_journal_eq hcall
      rw [after, hfire] at hback
      exact ⟨since ++ later, m, by rw [hstop, hback, List.append_assoc], hpass⟩
    · exact ih hc

theorem picks_ne_of_nodup {later earlier : List Moment} {m m' : Moment} {k k' : Picked}
    (hnodup : ((picks pass (later ++ m :: earlier)).map Picked.timer).Nodup)
    (hk : k ∈ m.picked? pass) (hm' : m' ∈ earlier) (hk' : k' ∈ m'.picked? pass) :
    k'.timer ≠ k.timer := by
  have hpicks : picks pass (m :: earlier) = picks pass earlier ++ [k] := by
    simp [picks, Option.mem_def.mp hk]
  rw [picks_append, hpicks, List.map_append, List.map_append] at hnodup
  have hdisjoint := (List.nodup_append.mp (List.nodup_append.mp hnodup).1).2.2
  exact hdisjoint _ (List.mem_map_of_mem (mem_picks hm' hk')) _ (by simp)

theorem Event.Begins.picked? {m : Moment} (h : m.event.Begins pass s) (pass' : Nat) :
    m.picked? pass' = none := by
  unfold Moment.picked?
  split
  · rename_i heq
    rw [heq] at h
    exact h.elim
  · rfl

/-- The picks of a pass are those of its fire calls. -/
theorem Drains.picks_eq {loop : LoopId} (h : Drains call s loop r cs)
    (hcall : call.Keeps (Run.Continues none)) (hr : r.Founded) :
    picks r.passes (after (drain call s loop) r).journal = cs.map (FireCall.picked s) := by
  have hnone : picks r.passes (r.observing s loop).journal = [] := by
    refine picks_eq_nil fun m hm => ?_
    rcases List.mem_cons.mp hm with rfl | hm
    · rfl
    · cases hk : m.picked? r.passes with
      | none => rfl
      | some k =>
        rcases List.mem_append.mp hm with hm | hm
        · cases (World.pass?_of_mem_waking hm).symm.trans (pass?_of_picked? hk)
        · exact absurd (pass?_of_picked? hk) (hr.pass?_ne m hm)
  cases h with
  | @ended stop report hmakes hfired hdrain =>
    rw [after, hdrain, Run.advance, picks, List.filterMap_cons_none rfl, ← picks,
      hmakes.picks_eq hcall (Nat.lt_succ_self _), hnone, List.nil_append]
  | broken hmakes hdrain =>
    rw [after, hdrain, hmakes.picks_eq hcall (Nat.lt_succ_self _), hnone, List.nil_append]

theorem Drains.passStarts {loop : LoopId} (h : Drains call s loop r cs)
    (hcall : call.Keeps (Run.Continues none)) {c : FireCall} (hc : c ∈ cs)
    (hstarts : c.Starts call s) :
    ∃ later m, (after (drain call s loop) r).journal = later ++ m :: c.begun.journal ∧
      PassStarts s c.timer m c.begun.journal := by
  cases h with
  | @ended stop report hmakes hfired hdrain =>
    obtain ⟨later, m, hjournal, hpass⟩ := hmakes.passStarts hcall hc hstarts
    refine ⟨⟨.passEnded r.passes s loop report, stop.world⟩ :: later, m, ?_, hpass⟩
    rw [after, hdrain, Run.advance, hjournal, List.cons_append]
  | broken hmakes hdrain =>
    rw [after, hdrain]
    exact hmakes.passStarts hcall hc hstarts

/-- Every pass of a run that operations lead to, nested ones included, goes on from a founded run. The
picks that it has left are its fire calls, and each of these that starts its timer has left the start
right after the pick. -/
theorem Reachable.exists_drains (h : Reachable r) {m : Moment} (hm : m ∈ r.journal)
    (hpass : m.event.pass? = some pass) :
    ∃ (behaviour : Behaviour) (depth : Nat) (s : SchedulerId) (loop : LoopId) (begun : Run)
      (cs : List FireCall), begun.Founded ∧ Drains (caller behaviour depth) s loop begun cs ∧
        picks pass r.journal = cs.map (FireCall.picked s) ∧
        ∀ c ∈ cs, c.Starts (caller behaviour depth) s → ∃ later m,
          r.journal = later ++ m :: c.begun.journal ∧ PassStarts s c.timer m c.begun.journal := by
  obtain ⟨w, hfresh, hruns⟩ := h.exists_runsTo
  obtain ⟨behaviour, depth, s, loop, begun, last, hleads, rfl, hjournal, hlast⟩ :=
    hruns.exists_drain hm hpass
  have hfounded : begun.Founded := ⟨w, hfresh, hleads⟩
  obtain ⟨cs, -, -, hdrains, -⟩ := exists_serves (caller behaviour depth) s loop begun
  refine ⟨behaviour, depth, s, loop, begun, cs, hfounded, hdrains, ?_, fun c hc hstarts => ?_⟩
  · rw [hjournal, picks_append, picks_of_foreign hlast, List.append_nil]
    exact hdrains.picks_eq (keeps_continues behaviour depth) hfounded
  · obtain ⟨later, m, hdrained, hpass⟩ :=
      hdrains.passStarts (keeps_continues behaviour depth) hc hstarts
    exact ⟨last ++ later, m, by rw [hjournal, hdrained, List.append_assoc], hpass⟩

section Swept

variable {began m : Moment} {later earlier : List Moment}

theorem Swept.not_picked_later (h : Swept r pass s whole began ms later earlier) (hm : m ∈ later) :
    m.picked? pass = none := by
  cases hk : m.picked? pass with
  | none => rfl
  | some k =>
    obtain ⟨-, loop, report, hended⟩ := h.after m hm (pass?_of_picked? hk)
    simp [Moment.picked?, hended] at hk

theorem Swept.not_picked_earlier (h : Swept r pass s whole began ms later earlier)
    (hbegins : began.event.Begins pass s) (hm : m ∈ began :: earlier) : m.picked? pass = none := by
  rcases List.mem_cons.mp hm with rfl | hm
  · exact hbegins.picked? pass
  · cases hk : m.picked? pass with
    | none => rfl
    | some k => exact absurd (pass?_of_picked? hk) (h.before m hm)

theorem Swept.mem_of_picked? (h : Swept r pass s whole began ms later earlier)
    (hbegins : began.event.Begins pass s) (hm : m ∈ r.journal) {k : Picked}
    (hk : m.picked? pass = some k) : m ∈ ms := by
  rw [h.journal] at hm
  rcases List.mem_append.mp hm with hm | hm
  · cases hk.symm.trans (h.not_picked_later hm)
  · rcases List.mem_append.mp hm with hm | hm
    · exact hm
    · cases hk.symm.trans (h.not_picked_earlier hbegins hm)

theorem Swept.picks_eq (h : Swept r pass s whole began ms later earlier)
    (hbegins : began.event.Begins pass s) : picks pass r.journal = picks pass ms := by
  have hlater := picks_eq_nil fun m hm => h.not_picked_later (m := m) hm
  have hearlier := picks_eq_nil fun m hm => h.not_picked_earlier (m := m) hbegins hm
  rw [h.journal, picks_append, picks_append, hlater, hearlier]
  simp

end Swept

namespace Choices

/-- A pick was in the snapshot, was live and was due. -/
theorem of_mem (h : Choices s p ks) (hp : p.Observed) {k : Picked} (hk : k ∈ ks) :
    k.scheduler = s ∧ k.mark ∈ p.marks k.trigger.kind ∧ k.world.Live k.mark ∧
      k.wait = p.wait k.trigger ∧ p.lead k.trigger ≤ 0 := by
  induction h with
  | nil => cases hk
  | @cons w p next ks hpick hdue _ ih =>
    obtain ⟨htakes, hwithin⟩ := Snapshot.takes_of_skip hp hpick
    rcases List.mem_cons.mp hk with rfl | hk
    · refine ⟨rfl, ((p.skip_within w).sublist _).subset htakes.mem, ?_, ?_, ?_⟩
      · exact Snapshot.live_of_skip_eq_cons htakes.front
      · exact htakes.wait_eq
      · rw [← (p.skip_within w).lead]
        exact htakes.lead_le hdue
    · obtain ⟨hs, hmem, hlive, hwait, hlead⟩ := ih (hwithin.observed hp) hk
      refine ⟨hs, (hwithin.sublist _).subset hmem, hlive, ?_, ?_⟩
      · rw [hwait, Snapshot.wait, hwithin.lead, Snapshot.wait]
      · rw [← hwithin.lead]
        exact hlead

theorem length_le (h : Choices s p ks) (hp : p.Observed) : ks.length ≤ p.size := by
  induction h with
  | nil => exact Nat.zero_le _
  | @cons w p next ks hpick hdue _ ih =>
    obtain ⟨htakes, hwithin⟩ := Snapshot.takes_of_skip hp hpick
    have hrest := ih (hwithin.observed hp)
    have hsize := htakes.size
    have hskip := (p.skip_within w).size_le
    rw [List.length_cons]
    omega

theorem nodup (h : Choices s p ks) (hp : p.Observed) (hdistinct : p.Distinct) :
    (ks.map Picked.timer).Nodup := by
  induction h with
  | nil => exact .nil
  | @cons w p next ks hpick hdue hrest ih =>
    obtain ⟨htakes, hwithin⟩ := Snapshot.takes_of_skip hp hpick
    have hobserved := hwithin.observed hp
    refine List.nodup_cons.mpr ⟨fun hmem => ?_, ih hobserved (hwithin.distinct hdistinct)⟩
    obtain ⟨k, hk, heq⟩ := List.mem_map.mp hmem
    obtain ⟨-, hmark, -⟩ := hrest.of_mem hobserved hk
    exact htakes.ne_of_mem ((p.skip_within w).distinct hdistinct) hmark heq

/-- Where waits are exact, picks are in the order of their leads, and active ones come first. -/
theorem pairwise_before (h : Choices s p ks) (hp : p.Observed) (hsorted : p.Sorted)
    (hexact : p.Exact) : ks.Pairwise fun a b => p.Before a.trigger b.trigger := by
  induction h with
  | nil => exact .nil
  | @cons w p next ks hpick hdue hrest ih =>
    have hskip := p.skip_within w
    obtain ⟨htakes, hwithin⟩ := Snapshot.takes_of_skip hp hpick
    have hobserved := hwithin.observed hp
    refine List.pairwise_cons.mpr ⟨fun k hk => ?_, ?_⟩
    · obtain ⟨-, hmark, -⟩ := hrest.of_mem hobserved hk
      exact (hskip.before _ _).mp (htakes.before (hskip.sorted hsorted) (hskip.exact hexact) hmark)
    · refine (ih hobserved (hwithin.sorted hsorted) (hwithin.exact hexact)).imp fun hab => ?_
      exact (hwithin.before _ _).mp hab

/-- The picks from one queue are in the order of that queue. -/
theorem sublist (h : Choices s p ks) (hp : p.Observed) (kind : QueueKind) :
    ((ks.map Picked.mark).filter fun x => x.2.kind = kind).Sublist (p.marks kind) := by
  induction h with
  | nil => exact List.nil_sublist _
  | @cons w p next ks hpick hdue hrest ih =>
    have hskip := p.skip_within w
    obtain ⟨htakes, hwithin⟩ := Snapshot.takes_of_skip hp hpick
    have hih := ih (hwithin.observed hp)
    rw [List.map_cons]
    by_cases hkind : next.trigger.kind = kind
    · subst hkind
      rw [List.filter_cons_of_pos (by simp [Picked.mark])]
      refine List.Sublist.trans ?_ (hskip.sublist _)
      rw [htakes.front]
      exact hih.cons_cons _
    · rw [List.filter_cons_of_neg (by simp [Picked.mark, hkind])]
      exact hih.trans (hwithin.sublist kind)

end Choices

/-- A pass makes at most one fire call for a timer. -/
theorem Serves.nodup (h : Serves call pass s r p cs result stop) (hp : p.Observed)
    (hdistinct : p.Distinct) : (cs.map FireCall.timer).Nodup := by
  have hnodup := h.choices.nodup hp hdistinct
  rw [List.map_map] at hnodup
  exact hnodup

end Timekeeping
