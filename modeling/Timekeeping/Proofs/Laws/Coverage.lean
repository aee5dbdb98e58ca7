import Timekeeping.Proofs.Run.Reaching
import Mathlib.Data.List.Nodup

/-!
A pass loses no timer that is due. It comes to the entry of each, and one that
it does not run then was taken out of its queue by the callback of another timer
that the pass had fired before.
-/
namespace Timekeeping

open Act

/-- Just one of the fire calls is for the timer, and it starts that. -/
def RunsOnce (call : Caller) (s : SchedulerId) (cs : List FireCall) (t : TimerId) : Prop :=
  (cs.map FireCall.timer).count t = 1 ∧ ∀ c ∈ cs, c.timer = t → c.Starts call s

/-- When the pass comes to the entry, its timer is not ready any more: it was removed while the
pass was firing another timer. -/
def Forestalled (pass : Nat) (s : SchedulerId) (x : TimerId × Trigger) (journal : List Moment) :
    Prop :=
  ∃ later here earlier, journal = later ++ here :: earlier ∧ here.event.Reaches pass s x ∧
    ¬ here.world.Ready s x ∧ ∃ later' m earlier' u, earlier = later' ++ m :: earlier' ∧
      m.event.Removes x.1 ∧ underWay pass earlier' = some u ∧ u ≠ x.1

/-- While the pass fires a timer, nothing touches others of the given ones. -/
def KeepsTo (pass : Nat) (ts : List TimerId) (journal : List Moment) : Prop :=
  ∀ i < journal.length, ∀ m ∈ journal[i]?, ∀ u ∈ underWay pass (journal.drop (i + 1)),
    ∀ t ∈ ts, m.event.Touches m.world t → t = u

instance (pass : Nat) (ts : List TimerId) (journal : List Moment) :
    Decidable (KeepsTo pass ts journal) :=
  inferInstanceAs (Decidable (∀ i < journal.length, _))

variable {call : Caller} {pass : Nat} {s : SchedulerId} {r : Run} {whole : Bool} {began : Moment}
  {ms later earlier after before : List Moment} {m here : Moment} {x : TimerId × Trigger}
  {t u : TimerId} {cs : List FireCall}

theorem KeepsTo.eq_of_touches {ts : List TimerId} {journal : List Moment}
    (h : KeepsTo pass ts journal) (hsplit : journal = later ++ m :: earlier)
    (hunderWay : underWay pass earlier = some u) (ht : t ∈ ts)
    (htouch : m.event.Touches m.world t) : t = u := by
  subst hsplit
  refine h later.length (by simp) m (by simp) u ?_ t ht htouch
  rw [List.drop_length_add_append]
  exact hunderWay

/-- The moments of a pass up to any one of them lead to its world. -/
theorem Swept.path (hswept : Swept r pass s whole began ms later earlier) (h : r.Founded)
    (hsplit : ms = after ++ m :: before) : began.world.Path (m :: before) m.world := by
  obtain ⟨w, -, hfounded⟩ := h.path
  obtain ⟨hpath, -⟩ := hfounded.at_moment (hswept.split hsplit)
  rw [← List.cons_append] at hpath
  obtain ⟨w', hbegan, hrest⟩ := hpath.split
  have hworld : w' = began.world := by
    cases hbegan
    rfl
  exact hworld ▸ hrest

/-- What belongs to no pass comes from the firing of a timer that the pass has picked. -/
theorem Swept.exists_firing (hswept : Swept r pass s whole began ms later earlier)
    (hsplit : ms = after ++ m :: before) (hforeign : m.event.pass? = none) :
    ∃ picking ∈ before, ∃ k ∈ picking.picked? pass,
      underWay pass (before ++ began :: earlier) = some k.timer := by
  have hother : m.event.pass? ≠ some pass := by
    rw [hforeign]
    exact (Option.some_ne_none pass).symm
  obtain ⟨u, hu⟩ := hswept.sweeps.exists_underWay hsplit hother
  obtain ⟨picking, hpicking, k, hk, rfl⟩ := exists_picked_of_underWay hu
  exact ⟨picking, hpicking, k, hk, underWay_append hu⟩

/-- A timer that is ready when the pass begins, but not when the pass comes to it, was removed by
the callback of another one. -/
theorem Swept.forestalled (hswept : Swept r pass s whole began ms later earlier) (h : r.Founded)
    (hcomes : Comes pass s x ms after here before) (hbegan : began.world.Ready s x)
    (hhere : ¬ here.world.Ready s x) : Forestalled pass s x r.journal := by
  have hsound : began.world.Sound := h.sound.2 began (by simp [hswept.journal])
  have hpath := hswept.path h hcomes.split
  have hremoved : ∃ m ∈ before, m.event.Removes x.1 := by
    by_contra hnone
    have hkept : ∀ m ∈ here :: before, ¬ m.event.Removes x.1 := by
      intro m hm hremoves
      rcases List.mem_cons.mp hm with rfl | hm
      · exact hcomes.reaches.not_removes hremoves
      · exact hnone ⟨m, hm, hremoves⟩
    exact hhere (hpath.stays_live hsound hbegan.1 hbegan.2 hkept)
  obtain ⟨m, hm, hremoves⟩ := hremoved
  obtain ⟨later', earlier', rfl⟩ := List.append_of_mem hm
  have hsplit : ms = (after ++ here :: later') ++ m :: earlier' := by
    rw [hcomes.split]
    simp
  obtain ⟨picking, hpicking, k, hk, hunderWay⟩ := hswept.exists_firing hsplit hremoves.pass?
  have hother : k.timer ≠ x.1 := hcomes.fresh picking (by simp [hpicking]) k hk
  refine ⟨later ++ after, here, later' ++ m :: (earlier' ++ began :: earlier), ?_, hcomes.reaches,
    hhere, later', m, earlier' ++ began :: earlier, k.timer, rfl, hremoves, hunderWay, hother⟩
  rw [hswept.split hcomes.split, List.append_assoc later', List.cons_append]

/-- A timer that is ready when the pass comes to it is run, and only once. -/
theorem Swept.runsOnce (hswept : Swept r pass s whole began ms later earlier) (h : r.Founded)
    (hcomes : Comes pass s x ms after here before)
    (hpicks : picks pass r.journal = cs.map (FireCall.picked s))
    (hnodup : (cs.map FireCall.timer).Nodup) (hhere : here.world.Ready s x) :
    RunsOnce call s cs x.1 := by
  have hmem : here ∈ r.journal := by simp [hswept.split hcomes.split]
  have hsound := h.sound.2 here hmem
  obtain ⟨⟨k, hk, hkt⟩, -⟩ := hcomes.starts hsound hhere
  have hcall := mem_picks hmem hk
  rw [hpicks] at hcall
  obtain ⟨c, hc, rfl⟩ := List.mem_map.mp hcall
  have hworld : c.begun.world = here.world := world_of_picked? hk
  have hct : c.timer = x.1 := hkt
  have hwaits : (c.timer, x.2) ∈ c.begun.world.waiting s x.2.kind := by
    rw [hworld, hct]
    exact hhere.2
  obtain ⟨hstarts, -⟩ := FireCall.starts_of_waiting call (hworld ▸ hsound) hwaits
  refine ⟨?_, fun c' hc' hct' => ?_⟩
  · rw [← hct]
    exact List.count_eq_one_of_mem hnodup (List.mem_map_of_mem hc)
  · rw [List.inj_on_of_nodup_map hnodup hc' hc (hct'.trans hct.symm)]
    exact hstarts

/-- If callbacks keep to their own timers, nothing touches a timer before the pass picks it: its
own callback would, so the pass would pick it twice. -/
theorem Swept.untouched (hswept : Swept r pass s whole began ms later earlier) {ts : List TimerId}
    (hkeeps : KeepsTo pass ts r.journal) (hnodup : ((picks pass ms).map Picked.timer).Nodup)
    (hsplit : ms = after ++ here :: before) {k : Picked} (hk : k ∈ here.picked? pass)
    (hts : k.timer ∈ ts) : ∀ m ∈ here :: before, ¬ m.event.Touches m.world k.timer := by
  intro m hm htouch
  rcases List.mem_cons.mp hm with rfl | hm
  · cases htouch.pass?.symm.trans (pass?_of_picked? hk)
  · obtain ⟨later', earlier', rfl⟩ := List.append_of_mem hm
    have hsplit' : ms = (after ++ here :: later') ++ m :: earlier' := by
      rw [hsplit]
      simp
    obtain ⟨picking, hpicking, k', hk', hunderWay⟩ := hswept.exists_firing hsplit' htouch.pass?
    have hsame := hkeeps.eq_of_touches (hswept.split hsplit') hunderWay hts htouch
    rw [hsplit] at hnodup
    exact picks_ne_of_nodup hnodup hk (by simp [hpicking]) hk' hsame.symm

/-- If callbacks keep to their own timers, what a pass picks was live and due when it began. -/
theorem Swept.ready_of_picked? (hswept : Swept r pass s whole began ms later earlier)
    (h : r.Founded) (hkeeps : KeepsTo pass (began.world.scheduler s).items r.journal)
    (hsplit : ms = after ++ here :: before) {k : Picked} (hk : k ∈ here.picked? pass) :
    began.world.Ready s k.mark ∧
      (Snapshot.ofWorld began.world s began.world.host.idleFor?).Due k.trigger := by
  have hsound : began.world.Sound := h.sound.2 began (by simp [hswept.journal])
  have hobserved := Snapshot.observed_ofWorld began.world s began.world.host.idleFor?
  have hchoices := hswept.sweeps.choices
  have hpick : k ∈ picks pass ms := mem_picks (by simp [hsplit]) hk
  obtain ⟨-, hmark, hlive, -, hlead⟩ := hchoices.of_mem hobserved hpick
  have hwaits : k.mark ∈ began.world.waiting s k.trigger.kind :=
    (Snapshot.marks_ofWorld_sublist _ _ _ _).subset hmark
  have hnodup := hchoices.nodup hobserved (Snapshot.distinct_ofWorld _ _ _ hsound)
  have huntouched := hswept.untouched hkeeps hnodup hsplit hk (World.mem_items.mpr ⟨_, _, hwaits⟩)
  have hunchanged := (hswept.path h hsplit).unchanged huntouched
  refine ⟨⟨?_, hwaits⟩, (Snapshot.due_iff hobserved hmark).mpr hlead⟩
  rw [← world_of_picked? hk] at hunchanged
  exact hunchanged.timer ▸ hlive.1

/-- A timer that is ready and due when the pass begins is run once, or another callback comes before
it. -/
theorem Swept.served (hswept : Swept r pass s whole began ms later earlier) (h : r.Founded)
    (hwhole : whole = true)
    (hnormal : (Snapshot.ofWorld began.world s began.world.host.idleFor?).Normal)
    (hpicks : picks pass r.journal = cs.map (FireCall.picked s))
    (hnodup : (cs.map FireCall.timer).Nodup) (hready : began.world.Ready s x)
    (hdue : (Snapshot.ofWorld began.world s began.world.host.idleFor?).Due x.2) :
    RunsOnce call s cs x.1 ∨ Forestalled pass s x r.journal := by
  have hsound : began.world.Sound := h.sound.2 began (by simp [hswept.journal])
  have hobserved := Snapshot.observed_ofWorld began.world s began.world.host.idleFor?
  have hmark := Snapshot.mem_marks_ofWorld _ _ _ hready.2 hdue
  obtain ⟨after, here, before, hcomes⟩ := hswept.sweeps.comes hwhole hobserved
    (Snapshot.sorted_ofWorld _ _ _ hsound hnormal) (Snapshot.distinct_ofWorld _ _ _ hsound) hmark
    ((Snapshot.due_iff hobserved hmark).mp hdue)
  by_cases hhere : here.world.Ready s x
  · exact Or.inl (hswept.runsOnce h hcomes hpicks hnodup hhere)
  · exact Or.inr (hswept.forestalled h hcomes hready hhere)

/-- If callbacks keep to their own timers, each fire call is for a timer that was live and due when the
pass began. -/
theorem Swept.ready_of_call (hswept : Swept r pass s whole began ms later earlier) (h : r.Founded)
    (hbegins : began.event.Begins pass s)
    (hkeeps : KeepsTo pass (began.world.scheduler s).items r.journal)
    (hpicks : picks pass r.journal = cs.map (FireCall.picked s)) {c : FireCall} (hc : c ∈ cs) :
    began.world.Ready s c.mark ∧
      (Snapshot.ofWorld began.world s began.world.host.idleFor?).Due c.trigger := by
  have hk : c.picked s ∈ picks pass ms := by
    rw [← hswept.picks_eq hbegins, hpicks]
    exact List.mem_map_of_mem hc
  obtain ⟨here, hhere, hk⟩ := List.mem_filterMap.mp (List.mem_reverse.mp hk)
  obtain ⟨after, before, hsplit⟩ := List.append_of_mem hhere
  exact hswept.ready_of_picked? h hkeeps hsplit hk

/-- A pass from the run `r` on with these fire calls comes to its end and serves all that is due. If
callbacks keep to their own timers, it runs just these. -/
structure Thorough (call : Caller) (s : SchedulerId) (loop : LoopId) (r : Run) (w : World)
    (cs : List FireCall) (journal : List Moment) : Prop where
  ended : returns (drain call s loop) r = true
  served : ∀ x, w.Ready s x → (Snapshot.ofWorld w s w.host.idleFor?).Due x.2 →
    RunsOnce call s cs x.1 ∨ Forestalled r.passes s x journal
  due_clock : ∀ t time, w.Ready s (t, .onClock time) → time ≤ w.host.now →
    (Snapshot.ofWorld w s w.host.idleFor?).Due (.onClock time)
  due_idle : ∀ t delay idleFor, w.Ready s (t, .afterIdle delay) →
    w.host.idleFor? = some idleFor → delay ≤ idleFor →
    (Snapshot.ofWorld w s w.host.idleFor?).Due (.afterIdle delay)
  exact_of_keepsTo : KeepsTo r.passes (w.scheduler s).items journal →
    (∀ t, t ∈ cs.map FireCall.timer ↔
      ∃ trigger, w.Ready s (t, trigger) ∧ (Snapshot.ofWorld w s w.host.idleFor?).Due trigger) ∧
    ∀ t ∈ cs.map FireCall.timer, RunsOnce call s cs t

theorem Forestalled.not_keepsTo (h : Forestalled pass s x r.journal) {ts : List TimerId}
    (hx : x.1 ∈ ts) : ¬ KeepsTo pass ts r.journal := by
  intro hkeeps
  obtain ⟨after, here, before, hsplit, -, -, later', m, earlier', u, rfl, hremoves, hu, hne⟩ := h
  have hjournal : r.journal = (after ++ here :: later') ++ m :: earlier' := by
    rw [hsplit]
    simp
  exact hne (hkeeps.eq_of_touches hjournal hu hx hremoves.touches).symm

/-- Whatever callbacks do, a pass whose fire calls all return loses no timer that is due. -/
theorem Run.Founded.no_due_timer_lost (h : r.Founded) (behaviour : Behaviour) (depth : Nat)
    (s : SchedulerId) (loop : LoopId) (hnormal : (r.snapshot s loop).Normal) :
    ∃ cs, Drains (caller behaviour depth) s loop r cs ∧
      ((∀ c ∈ cs, returns (fire (caller behaviour depth) s c.timer) c.begun = true) →
        Thorough (caller behaviour depth) s loop r (r.world.observed s loop) cs
          (Act.after (drain (caller behaviour depth) s loop) r).journal) := by
  have hcall := keeps_continues behaviour depth
  obtain ⟨cs, result, stop, hdrains, hserves⟩ := exists_serves (caller behaviour depth) s loop r
  refine ⟨cs, hdrains, fun hreturned => ?_⟩
  have hwhole := hdrains.returns_iff.mpr hreturned
  have hend := h.after_drain behaviour depth s loop
  have hpicks := hdrains.picks_eq hcall h
  obtain ⟨ms, later, hswept⟩ := swept_drain hcall s loop h.pass?_ne
  have hsound := h.sound.1.observed s loop
  have hnodup := hserves.nodup (Snapshot.observed_ofWorld _ _ _)
    (Snapshot.distinct_ofWorld _ _ _ hsound)
  have hserved : ∀ x, (r.world.observed s loop).Ready s x → (r.snapshot s loop).Due x.2 →
      RunsOnce (caller behaviour depth) s cs x.1 ∨ Forestalled r.passes s x
        (Act.after (drain (caller behaviour depth) s loop) r).journal := fun x hready hdue =>
    hswept.served hend hwhole hnormal hpicks hnodup hready hdue
  refine ⟨hwhole, hserved, ?_, ?_, fun hkeeps => ?_⟩
  · exact fun t time hready hle => Snapshot.due_of_le_now hnormal hready.2 hle
  · exact fun t delay idleFor hready hidle hle =>
      Snapshot.due_of_le_idleFor hnormal hready.2 hidle hle
  · have hruns : ∀ t trigger, (r.world.observed s loop).Ready s (t, trigger) →
        (r.snapshot s loop).Due trigger → RunsOnce (caller behaviour depth) s cs t := by
      intro t trigger hready hdue
      refine (hserved _ hready hdue).resolve_right fun hforestalled => ?_
      exact hforestalled.not_keepsTo (World.mem_items.mpr ⟨_, _, hready.2⟩) hkeeps
    have hdue : ∀ t ∈ cs.map FireCall.timer, ∃ trigger,
        (r.world.observed s loop).Ready s (t, trigger) ∧ (r.snapshot s loop).Due trigger := by
      intro t ht
      obtain ⟨c, hc, rfl⟩ := List.mem_map.mp ht
      exact ⟨c.trigger, hswept.ready_of_call hend ⟨rfl, rfl⟩ hkeeps hpicks hc⟩
    refine ⟨fun t => ⟨hdue t, ?_⟩, fun t ht => ?_⟩
    · rintro ⟨trigger, hready, hdue⟩
      exact List.count_pos_iff.mp (by rw [(hruns t trigger hready hdue).1]; exact Nat.one_pos)
    · obtain ⟨trigger, hready, hdue⟩ := hdue t ht
      exact hruns t trigger hready hdue

/-- A pass over the scheduler of the run that is looked at. -/
def samplePass : Act PassReport := drain (caller sampleBehaviour 1) 0 (.named "main")

/-- Two passes. The first comes to its end without the timer for second 6, which the callback of another
one cancels. In the second one that callback finds nothing to cancel, and just its own timer is due. -/
theorem no_due_timer_lost_waitingRun :
    Forestalled waitingRun.passes 0 (⟨3⟩, .onClock (.ofSeconds 6))
      (Act.after samplePass waitingRun).journal ∧
    ∃ cs, Drains (caller sampleBehaviour 1) 0 (.named "main") (Act.after samplePass waitingRun) cs ∧
      cs.map FireCall.timer = [⟨0⟩] ∧ RunsOnce (caller sampleBehaviour 1) 0 cs ⟨0⟩ := by
  have hcall := keeps_continues sampleBehaviour 1
  have hfounded := reachable_waitingRun.founded
  have hfounded' : (Act.after samplePass waitingRun).Founded :=
    hfounded.after_drain sampleBehaviour 1 0 (.named "main")
  have htimers : ∀ {r : Run} {cs : List FireCall}, r.Founded →
      Drains (caller sampleBehaviour 1) 0 (.named "main") r cs →
      cs.map FireCall.timer = (picks r.passes (Act.after samplePass r).journal).map Picked.timer := by
    intro r cs hr hdrains
    have hpicks : picks r.passes (Act.after samplePass r).journal = _ := hdrains.picks_eq hcall hr
    rw [hpicks, List.map_map]
    rfl
  constructor
  · obtain ⟨cs, hdrains, hlaw⟩ :=
      hfounded.no_due_timer_lost sampleBehaviour 1 0 (.named "main") (by decide +kernel)
    have hthorough := hlaw (hdrains.returns_iff.mp (by decide +kernel))
    have hready : (waitingRun.world.observed 0 (.named "main")).Ready 0
        (⟨3⟩, .onClock (.ofSeconds 6)) := by decide +kernel
    have hdue := hthorough.due_clock _ _ hready (by decide +kernel)
    refine (hthorough.served _ hready hdue).resolve_left fun hruns => ?_
    have hnone : ((picks waitingRun.passes (Act.after samplePass waitingRun).journal).map
        Picked.timer).count ⟨3⟩ = 0 := by decide +kernel
    rw [← htimers hfounded hdrains] at hnone
    cases hnone.symm.trans hruns.1
  · obtain ⟨cs, hdrains, hlaw⟩ :=
      hfounded'.no_due_timer_lost sampleBehaviour 1 0 (.named "main") (by decide +kernel)
    have hthorough := hlaw (hdrains.returns_iff.mp (by decide +kernel))
    have hone : (picks (Act.after samplePass waitingRun).passes
        (Act.after samplePass (Act.after samplePass waitingRun)).journal).map Picked.timer =
          [⟨0⟩] := by decide +kernel
    rw [← htimers hfounded' hdrains] at hone
    obtain ⟨-, honce⟩ := hthorough.exact_of_keepsTo (by decide +kernel)
    exact ⟨cs, hdrains, hone, honce _ (by rw [hone]; exact List.mem_singleton.mpr rfl)⟩

end Timekeeping
