import Timekeeping.Proofs.Run.Reachability

/-!
The queues and the rows of timers say the same at every moment of a run. The
statement here speaks of the queues as they are stored, and is what the
invariant of the steps comes to.
-/
namespace Timekeeping

/-- All queues are in order, no timer is queued twice, and rows say where timers are queued and
under which trigger. -/
structure World.Consistent (w : World) : Prop where
  active_ordered : ∀ s, (w.scheduler s).active.entries.Pairwise fun a b => a.key ≤ b.key
  idle_ordered : ∀ s, (w.scheduler s).idle.entries.Pairwise fun a b => a.key ≤ b.key
  once : ∀ s, (w.scheduler s).items.Nodup
  nowhere_else : ∀ s s', s ≠ s' → List.Disjoint (w.scheduler s).items (w.scheduler s').items
  queued_active : ∀ t, (w.timer t).queued = some .active ↔ ∃ s, t ∈ (w.scheduler s).active.items
  queued_idle : ∀ t, (w.timer t).queued = some .idle ↔ ∃ s, t ∈ (w.scheduler s).idle.items
  queued_none : ∀ t, (w.timer t).queued = none ↔ ∀ s, t ∉ (w.scheduler s).items
  active_trigger : ∀ s, ∀ e ∈ (w.scheduler s).active.entries,
    (w.timer e.item).trigger = some (.onClock e.key)
  idle_trigger : ∀ s, ∀ e ∈ (w.scheduler s).idle.entries,
    (w.timer e.item).trigger = some (.afterIdle e.key)

namespace World

theorem Sound.consistent {w : World} (h : w.Sound) : w.Consistent where
  active_ordered s := (h.ordered s).1
  idle_ordered s := (h.ordered s).2
  once := h.nodup_items
  nowhere_else _ _ hne := h.disjoint_items hne
  queued_active t := by
    rw [h.queued_iff]
    exact exists_congr fun s => mem_active_items.symm
  queued_idle t := by
    rw [h.queued_iff]
    exact exists_congr fun s => mem_idle_items.symm
  queued_none t := h.queued_eq_none_iff
  active_trigger s e he := by
    have hmem : (e.item, .onClock e.key) ∈ w.waiting s .active := List.mem_map_of_mem he
    exact (h.entry hmem).2
  idle_trigger s e he := by
    have hmem : (e.item, .afterIdle e.key) ∈ w.waiting s .idle := List.mem_map_of_mem he
    exact (h.entry hmem).2

end World

/-- Whatever operations are performed and whatever callbacks do, queues and rows agree in the end
and at every moment up to then, those inside callbacks included. -/
theorem Reachable.queues_agree {r : Run} (h : Reachable r) :
    r.world.Consistent ∧ ∀ m ∈ r.journal, m.world.Consistent :=
  ⟨h.sound.1.consistent, fun m hm => (h.sound.2 m hm).consistent⟩

/-- Four timers, of which one starts while another is taken out of the queue. -/
theorem queues_agree_sampleRun :
    0 < sampleRun.journal.length ∧ sampleRun.world.Consistent ∧
      ∀ m ∈ sampleRun.journal, m.world.Consistent :=
  ⟨by decide +kernel, Reachable.queues_agree reachable_sampleRun⟩

end Timekeeping
