import Timekeeping.Queue
import Mathlib.Data.List.TakeWhile
import Mathlib.Data.List.Perm.Basic

/-!
Queues stay in the order of their keys. In that order halving finds the place
after all entries with the same key, where a new entry is put, and taking an
entry out leaves the others as they are.
-/
namespace Timekeeping

/-- The halving ends at the one place that parts the places where `stays` holds from the others. -/
theorem turningPoint_eq {stays : Nat → Bool} {low size n : Nat} (hlow : low ≤ n)
    (hhigh : n ≤ low + size)
    (hstays : ∀ i, low ≤ i → i < low + size → (stays i = true ↔ i < n)) :
    turningPoint stays low size = n := by
  fun_induction turningPoint stays low size with
  | case1 low => omega
  | case2 low size hsize half hhalf ih =>
    have hbelow := (hstays (low + half) (by omega) (by omega)).mp hhalf
    exact ih (by omega) (by omega) fun i hfrom hto => hstays i (by omega) (by omega)
  | case3 low size hsize half hhalf ih =>
    have habove : ¬ low + half < n := mt (hstays (low + half) (by omega) (by omega)).mpr hhalf
    exact ih hlow (by omega) fun i hfrom hto => hstays i hfrom (by omega)

namespace Queue

variable {κ ι : Type}

section Keys

variable [LE κ]

/-- The keys ascend. -/
def Ordered (q : Queue κ ι) : Prop := q.entries.Pairwise fun a b => a.key ≤ b.key

variable [DecidableLE κ]

theorem upTo_append_after (q : Queue κ ι) (key : κ) : q.upTo key ++ q.after key = q.entries :=
  List.take_append_drop ..

theorem insert_perm (q : Queue κ ι) (key : κ) (item : ι) :
    (q.insert key item).entries.Perm (⟨key, item⟩ :: q.entries) := by
  rw [← upTo_append_after q key]
  exact List.perm_middle

variable [Std.IsLinearPreorder κ]

/-- In order of keys, the halving finds the place that a scan from the front finds. -/
theorem Ordered.position_eq {q : Queue κ ι} (hq : q.Ordered) (key : κ) :
    q.position key = q.entries.findIdx fun e => ¬ e.key ≤ key := by
  apply turningPoint_eq (Nat.zero_le _) (by simpa using List.findIdx_le_length)
  intro i _ hi
  rw [Nat.zero_add] at hi
  simp only [List.getElem?_eq_getElem hi, Option.any_some, decide_eq_true_eq]
  constructor
  · intro hle
    by_contra hge
    have hfirst : q.entries.findIdx (fun e => ¬ e.key ≤ key) < q.entries.length := by omega
    have hlater := of_decide_eq_true (List.findIdx_getElem (w := hfirst))
    have hkeys : q.entries[q.entries.findIdx fun e => ¬ e.key ≤ key].key ≤ q.entries[i].key := by
      rcases Nat.eq_or_lt_of_le (not_lt.mp hge) with heq | hlt
      · simp only [heq, Std.le_refl]
      · exact List.pairwise_iff_getElem.mp hq _ _ hfirst hi hlt
    exact hlater (Std.le_trans hkeys hle)
  · intro hlt
    simpa using List.not_of_lt_findIdx hlt

theorem Ordered.upTo_eq {q : Queue κ ι} (hq : q.Ordered) (key : κ) :
    q.upTo key = q.entries.takeWhile fun e => e.key ≤ key := by
  simp only [upTo, hq.position_eq, List.takeWhile_eq_take_findIdx_not, decide_not]

theorem Ordered.after_eq {q : Queue κ ι} (hq : q.Ordered) (key : κ) :
    q.after key = q.entries.dropWhile fun e => e.key ≤ key := by
  simp only [after, hq.position_eq, List.dropWhile_eq_drop_findIdx_not, decide_not]

theorem le_of_mem_upTo {q : Queue κ ι} (hq : q.Ordered) {key : κ} {e : Entry κ ι}
    (he : e ∈ q.upTo key) : e.key ≤ key := by
  rw [hq.upTo_eq] at he
  simpa using List.mem_takeWhile_imp he

/-- All entries after the first later one are later too. -/
theorem not_le_of_mem_after {q : Queue κ ι} (hq : q.Ordered) {key : κ} {e : Entry κ ι}
    (he : e ∈ q.after key) : ¬ e.key ≤ key := by
  rw [hq.after_eq] at he
  obtain ⟨entries⟩ := q
  unfold Ordered at hq
  induction entries with
  | nil => simp at he
  | cons first rest ih =>
    obtain ⟨hfirst, hrest⟩ := List.pairwise_cons.mp hq
    by_cases hkey : first.key ≤ key
    · rw [List.dropWhile_cons_of_pos (by simpa using hkey)] at he
      exact ih hrest he
    · rw [List.dropWhile_cons_of_neg (by simpa using hkey)] at he
      rcases List.mem_cons.mp he with rfl | he
      · exact hkey
      · exact fun hle => hkey (Std.IsPreorder.le_trans _ _ _ (hfirst e he) hle)

theorem Ordered.insert {q : Queue κ ι} (hq : q.Ordered) (key : κ) (item : ι) :
    (q.insert key item).Ordered := by
  have hlater : ∀ e ∈ q.after key, key ≤ e.key := by
    intro e he
    rcases Std.IsLinearPreorder.le_total key e.key with h | h
    · exact h
    · exact absurd h (not_le_of_mem_after hq he)
  have hsplit : (q.upTo key ++ q.after key).Pairwise fun a b => a.key ≤ b.key := by
    rw [upTo_append_after]
    exact hq
  obtain ⟨hupTo, hafter, hcross⟩ := List.pairwise_append.mp hsplit
  refine List.pairwise_append.mpr ⟨hupTo, List.pairwise_cons.mpr ⟨hlater, hafter⟩, ?_⟩
  intro a ha b hb
  rcases List.mem_cons.mp hb with rfl | hb
  · exact le_of_mem_upTo hq ha
  · exact hcross a ha b hb

end Keys

section Items

variable [DecidableEq ι]

theorem contains_iff (q : Queue κ ι) (item : ι) :
    q.contains item = true ↔ ∃ e ∈ q.entries, e.item = item := by
  simp [contains]

/-- The first entry of an item, between the entries before and after it. -/
structure FirstEntry (q : Queue κ ι) (item : ι) (front : List (Entry κ ι)) (e : Entry κ ι)
    (back : List (Entry κ ι)) : Prop where
  entries_eq : q.entries = front ++ e :: back
  item_eq : e.item = item
  not_before : ∀ f ∈ front, f.item ≠ item

/-- It is found and taken out, and all others are left in their order. -/
theorem exists_firstEntry {q : Queue κ ι} {item : ι} (h : q.contains item = true) :
    ∃ front e back, q.FirstEntry item front e back ∧ q.key? item = some e.key ∧
      (q.remove item).entries = front ++ back := by
  obtain ⟨e, he, hitem⟩ := (contains_iff q item).mp h
  obtain ⟨e, front, back, hfront, hitem, hentries, herase⟩ :=
    List.exists_of_eraseP (p := fun e => decide (e.item = item)) he (by simpa using hitem)
  simp only [decide_eq_true_eq] at hfront hitem
  refine ⟨front, e, back, ⟨hentries, hitem, hfront⟩, ?_, herase⟩
  have hnone : front.find? (fun e => decide (e.item = item)) = none := by simpa using hfront
  rw [key?, hentries, List.find?_append, hnone, Option.none_or,
    List.find?_cons_of_pos (by simpa using hitem), Option.map_some]

theorem contains_eq_false_iff (q : Queue κ ι) (item : ι) :
    q.contains item = false ↔ q.key? item = none ∧ q.remove item = q := by
  constructor
  · intro h
    have hnone : ∀ e ∈ q.entries, ¬ e.item = item := by simpa [contains] using h
    refine ⟨by simpa [key?] using hnone, ?_⟩
    rw [remove, List.eraseP_of_forall_not (by simpa using hnone)]
  · rintro ⟨hkey, -⟩
    by_contra hcontains
    obtain ⟨front, e, back, -, hfound, -⟩ := exists_firstEntry (Bool.not_eq_false _ ▸ hcontains)
    rw [hkey] at hfound
    cases hfound

theorem remove_sublist (q : Queue κ ι) (item : ι) :
    (q.remove item).entries.Sublist q.entries :=
  List.eraseP_sublist

theorem Ordered.remove [LE κ] {q : Queue κ ι} (hq : q.Ordered) (item : ι) :
    (q.remove item).Ordered :=
  List.Pairwise.sublist (remove_sublist q item) hq

end Items
end Queue
end Timekeeping
