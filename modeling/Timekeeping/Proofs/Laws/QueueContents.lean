import Timekeeping.Proofs.State.Sorting
import Mathlib.Data.List.Induction

/-!
What an empty queue holds after requests to put entries in and to take items out, where an item may be
entered more than once: the insertions that stand, sorted by key, with those under one key in the order
in which they were made. The halving search finds the place that counting the entries before it gives.
-/
namespace Timekeeping.Queue

/-- What a queue is asked to do. -/
inductive Request (κ ι : Type)
  | insert (key : κ) (item : ι)
  | remove (item : ι)

section FirstKey

variable {κ ι : Type}

theorem firstKey?_eq_none_iff (q : Queue κ ι) : q.firstKey? = none ↔ q.entries = [] := by
  simp [firstKey?, peek?]

/-- The first key is the least. -/
theorem Ordered.firstKey?_least [LE κ] [Std.IsLinearPreorder κ] {q : Queue κ ι} (hq : q.Ordered)
    {key : κ} (h : q.firstKey? = some key) :
    (∃ e ∈ q.entries, e.key = key) ∧ ∀ e ∈ q.entries, key ≤ e.key := by
  obtain ⟨e, he, rfl⟩ := Option.map_eq_some_iff.mp h
  obtain ⟨rest, hrest⟩ := List.head?_eq_some_iff.mp he
  rw [Ordered, hrest] at hq
  rw [hrest]
  refine ⟨⟨e, List.mem_cons_self, rfl⟩, fun f hf => ?_⟩
  rcases List.mem_cons.mp hf with rfl | hf
  · exact Std.le_refl _
  · exact (List.pairwise_cons.mp hq).1 f hf

end FirstKey

variable {κ ι : Type} [LE κ] [DecidableLE κ]

section Requests

variable [DecidableEq ι]

def serve (q : Queue κ ι) : Request κ ι → Queue κ ι
  | .insert key item => q.insert key item
  | .remove item => q.remove item

/-- What requests make of an empty queue. -/
def ofRequests (requests : List (Request κ ι)) : Queue κ ι := requests.foldl serve {}

/-- The insertions that stand after one more request. To remove an item undoes one of its insertions:
of those with the least key the earliest. -/
def note (standing : List (Entry κ ι)) : Request κ ι → List (Entry κ ι)
  | .insert key item => standing ++ [⟨key, item⟩]
  | .remove item => withoutFirst standing item

/-- The insertions that no removal undid, in the order in which they were made. -/
def standing (requests : List (Request κ ι)) : List (Entry κ ι) := requests.foldl note []

/-- How a queue stands to the insertions that it holds: it sorts them and keeps those under one key in
their order, it finds the place of a new entry, and it gives an item's first entry back. -/
structure SortsStably (q : Queue κ ι) (insertions : List (Entry κ ι)) : Prop where
  sorts : q.Sorts insertions
  entries_eq : q.entries = insertions.mergeSort fun a b => a.key ≤ b.key
  counted (key : κ) : q.position key = q.entries.countP fun e => e.key ≤ key
  scanned (key : κ) : q.position key = q.entries.findIdx fun e => ¬ e.key ≤ key
  inserted (key : κ) (item : ι) :
    (q.insert key item).entries = q.entries.insertIdx (q.position key) ⟨key, item⟩
  removed {item : ι} : q.contains item = true → ∃ front e back, q.FirstEntry item front e back ∧
    q.key? item = some e.key ∧ (q.remove item).entries = front ++ back
  refused {item : ι} : q.contains item = false ↔ q.key? item = none ∧ q.remove item = q
  no_first : q.firstKey? = none ↔ q.entries = []
  first {key : κ} : q.firstKey? = some key →
    (∃ e ∈ q.entries, e.key = key) ∧ ∀ e ∈ q.entries, key ≤ e.key

end Requests

variable [Std.IsLinearPreorder κ] {q : Queue κ ι}

theorem Ordered.position_le (hq : q.Ordered) (key : κ) : q.position key ≤ q.entries.length := by
  rw [hq.position_eq]
  exact List.findIdx_le_length

/-- All entries that are not later than a key stand before its place. -/
theorem Ordered.position_eq_countP (hq : q.Ordered) (key : κ) :
    q.position key = q.entries.countP fun e => e.key ≤ key := by
  have hupTo : (q.upTo key).countP (fun e => e.key ≤ key) = (q.upTo key).length :=
    List.countP_eq_length.mpr fun e he => decide_eq_true (le_of_mem_upTo hq he)
  have hafter : (q.after key).countP (fun e => e.key ≤ key) = 0 :=
    List.countP_eq_zero.mpr fun e he => by simpa using not_le_of_mem_after hq he
  rw [← upTo_append_after q key, List.countP_append, hupTo, hafter, Nat.add_zero, upTo,
    List.length_take_of_le (hq.position_le key)]

theorem Ordered.insert_entries (hq : q.Ordered) (key : κ) (item : ι) :
    (q.insert key item).entries = q.entries.insertIdx (q.position key) ⟨key, item⟩ := by
  have hlength : (q.upTo key).length = q.position key := List.length_take_of_le (hq.position_le key)
  have hinsert := List.modifyTailIdx_add (List.cons ⟨key, item⟩) 0 (q.upTo key) (q.after key)
  rw [upTo_append_after, hlength, Nat.add_zero] at hinsert
  exact hinsert.symm

variable [DecidableEq ι]

theorem Sorts.serve {insertions : List (Entry κ ι)} (h : q.Sorts insertions) (request : Request κ ι) :
    (q.serve request).Sorts (note insertions request) := by
  cases request with
  | insert key item => exact h.insert key item
  | remove item => exact h.remove item

theorem sorts_standing (requests : List (Request κ ι)) :
    (ofRequests requests).Sorts (standing requests) := by
  induction requests using List.reverseRecOn with
  | nil => exact ⟨List.Pairwise.nil, fun _ => rfl⟩
  | append_singleton requests request ih =>
    rw [ofRequests, standing, List.foldl_append, List.foldl_append]
    exact ih.serve request

theorem sorts_stably (requests : List (Request κ ι)) :
    (ofRequests requests).SortsStably (standing requests) := by
  have hsorts := sorts_standing requests
  have hordered := hsorts.ordered
  exact {
    sorts := hsorts
    entries_eq := hsorts.entries_eq
    counted := hordered.position_eq_countP
    scanned := hordered.position_eq
    inserted := hordered.insert_entries
    removed := exists_firstEntry
    refused := contains_eq_false_iff _ _
    no_first := firstKey?_eq_none_iff _
    first := hordered.firstKey?_least }

/-- Two items are entered twice, once each under a key that both have. -/
def crossedRequests : List (Request Int Char) :=
  [.insert 5 'a', .insert 3 'b', .insert 5 'b', .insert 3 'a', .insert 4 'c', .remove 'b', .remove 'd']

/-- The later insertion of the second item stands, behind that of the first under the same key. -/
theorem sorts_stably_crossedRequests :
    Std.IsLinearPreorder Int ∧
      (ofRequests crossedRequests).SortsStably (standing crossedRequests) ∧
      (ofRequests crossedRequests).entries = [⟨3, 'a'⟩, ⟨4, 'c'⟩, ⟨5, 'a'⟩, ⟨5, 'b'⟩] :=
  ⟨inferInstance, sorts_stably crossedRequests, by decide +kernel⟩

end Timekeeping.Queue
