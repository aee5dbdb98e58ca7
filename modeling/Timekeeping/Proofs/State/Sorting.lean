import Timekeeping.Proofs.State.Ordered

/-!
Queues sort stably. Entries are in the stable order of a list if their keys ascend and, under each key,
they are those of the list in the order of the list. An entry put into the queue comes last under its key,
as it does at the end of the list; the first entry of an item in the queue is, among those of the item in
the list, the first under the least key.
-/
namespace Timekeeping

/-- Tests that agree on a list take the same entry out of it. -/
theorem eraseP_congr {α : Type} {p p' : α → Bool} {l : List α} (h : ∀ a ∈ l, p a = p' a) :
    l.eraseP p = l.eraseP p' := by
  induction l with
  | nil => rfl
  | cons a l ih =>
    obtain ⟨ha, hl⟩ := List.forall_mem_cons.mp h
    rw [List.eraseP_cons, List.eraseP_cons, ha, ih hl]

namespace Queue

section Keys

variable {κ ι : Type} [LE κ]

/-- An entry is under its own key, which is not told from another key if neither is later. -/
def IsUnder (key : κ) (e : Entry κ ι) : Prop := e.key ≤ key ∧ key ≤ e.key

instance [DecidableLE κ] (key : κ) (e : Entry κ ι) : Decidable (IsUnder key e) :=
  inferInstanceAs (Decidable (_ ∧ _))

variable [Std.IsLinearPreorder κ] {key : κ} {e : Entry κ ι}

theorem isUnder_self (e : Entry κ ι) : IsUnder e.key e := ⟨Std.le_refl _, Std.le_refl _⟩

theorem IsUnder.congr (he : IsUnder key e) (f : Entry κ ι) : IsUnder key f ↔ IsUnder e.key f :=
  ⟨fun hf => ⟨Std.le_trans hf.1 he.2, Std.le_trans he.1 hf.2⟩,
    fun hf => ⟨Std.le_trans hf.1 he.1, Std.le_trans he.2 hf.2⟩⟩

/-- In the order of keys, the first entry of an item has the item's least key. -/
theorem FirstEntry.le_of_mem {q : Queue κ ι} {item : ι} {front back : List (Entry κ ι)}
    {f : Entry κ ι} (h : q.FirstEntry item front e back) (hq : q.Ordered) (hf : f ∈ q.entries)
    (hitem : f.item = item) : e.key ≤ f.key := by
  rw [Ordered, h.entries_eq] at hq
  rw [h.entries_eq] at hf
  rcases List.mem_append.mp hf with hfront | hback
  · exact absurd hitem (h.not_before f hfront)
  · rcases List.mem_cons.mp hback with rfl | hback
    · exact Std.le_refl _
    · exact (List.pairwise_cons.mp (List.pairwise_append.mp hq).2.1).1 f hback

end Keys

variable {κ ι : Type} [LE κ] [DecidableLE κ]

/-- The entries under a key. -/
def under (entries : List (Entry κ ι)) (key : κ) : List (Entry κ ι) :=
  entries.filter fun e => IsUnder key e

/-- The queue holds the entries of a list by key, and under each key in the order of the list. -/
structure Sorts (q : Queue κ ι) (list : List (Entry κ ι)) : Prop where
  ordered : q.Ordered
  under_eq : ∀ key, under q.entries key = under list key

theorem under_append (list list' : List (Entry κ ι)) (key : κ) :
    under (list ++ list') key = under list key ++ under list' key :=
  List.filter_append ..

theorem under_eraseP_of_not {list : List (Entry κ ι)} {p : Entry κ ι → Bool} {key : κ}
    (h : ∀ e ∈ list, p e → ¬ IsUnder key e) : under (list.eraseP p) key = under list key := by
  obtain hself | ⟨e, front, back, -, hp, rfl, herase⟩ := List.exists_or_eq_self_of_eraseP p list
  · rw [hself]
  · have hnone : under [e] key = [] := by simpa [under] using h e (by simp) hp
    rw [herase, under_append, under_append, ← List.singleton_append, under_append, hnone,
      List.nil_append]

variable [Std.IsLinearPreorder κ] {q : Queue κ ι} {list list' : List (Entry κ ι)} {e : Entry κ ι}

theorem IsUnder.under_eq {key : κ} (he : IsUnder key e) (list : List (Entry κ ι)) :
    under list key = under list e.key :=
  List.filter_congr fun f _ => decide_eq_decide.mpr (he.congr f)

/-- Lists that agree under each key have the same entries, as each entry is under its own key. -/
theorem perm_of_under_eq (h : ∀ key, under list key = under list' key) : list.Perm list' := by
  classical
  refine List.perm_iff_count.mpr fun e => ?_
  have hcount : ∀ list : List (Entry κ ι), (under list e.key).count e = list.count e :=
    fun list => List.count_filter (by simpa using isUnder_self e)
  rw [← hcount list, h, hcount list']

/-- The stable order of a list is the only one. -/
theorem eq_of_under_eq (hlist : list.Pairwise fun a b => a.key ≤ b.key)
    (hlist' : list'.Pairwise fun a b => a.key ≤ b.key)
    (h : ∀ key, under list key = under list' key) : list = list' := by
  have hperm := perm_of_under_eq h
  induction list generalizing list' with
  | nil => exact hperm.nil_eq
  | cons a list ih =>
    cases list' with
    | nil => exact absurd hperm.length_eq (by simp)
    | cons b list' =>
      obtain ⟨ha, hrest⟩ := List.pairwise_cons.mp hlist
      obtain ⟨hb, hrest'⟩ := List.pairwise_cons.mp hlist'
      have hab : a.key ≤ b.key := by
        rcases List.mem_cons.mp (hperm.symm.subset List.mem_cons_self) with rfl | hmem
        · exact Std.le_refl _
        · exact ha b hmem
      have hba : b.key ≤ a.key := by
        rcases List.mem_cons.mp (hperm.subset List.mem_cons_self) with rfl | hmem
        · exact Std.le_refl _
        · exact hb a hmem
      -- Both heads come first under their common key.
      obtain rfl : a = b := by
        have hheads := h a.key
        rw [under, List.filter_cons_of_pos (by simpa using isUnder_self a), under,
          List.filter_cons_of_pos (by simpa using ⟨hba, hab⟩)] at hheads
        exact (List.cons.inj hheads).1
      have htails : ∀ key, under list key = under list' key := by
        intro key
        have hkey := h key
        simp only [under, List.filter_cons] at hkey
        split at hkey
        · exact (List.cons.inj hkey).2
        · exact hkey
      rw [ih hrest hrest' htails (perm_of_under_eq htails)]

theorem Sorts.perm (h : q.Sorts list) : q.entries.Perm list := perm_of_under_eq h.under_eq

/-- Sorting by merging does the same. -/
theorem sorts_mergeSort (list : List (Entry κ ι)) :
    Sorts ⟨list.mergeSort fun a b => a.key ≤ b.key⟩ list := by
  have htrans : ∀ a b c : Entry κ ι, decide (a.key ≤ b.key) = true → decide (b.key ≤ c.key) = true →
      decide (a.key ≤ c.key) = true := by
    simpa using fun a b c => Std.le_trans
  have htotal : ∀ a b : Entry κ ι, (decide (a.key ≤ b.key) || decide (b.key ≤ a.key)) = true := by
    simpa using fun a b => Std.le_total
  constructor
  · simpa [Ordered] using List.pairwise_mergeSort htrans htotal list
  · intro key
    have hequal : (under list key).Pairwise fun a b => decide (a.key ≤ b.key) = true := by
      refine List.pairwise_of_forall_mem_list fun a ha b hb => ?_
      have hakey : IsUnder key a := by simpa using (List.mem_filter.mp ha).2
      have hbkey : IsUnder key b := by simpa using (List.mem_filter.mp hb).2
      simpa using Std.le_trans hakey.1 hbkey.2
    have hsub : (under (under list key) key).Sublist
        (under (list.mergeSort fun a b => a.key ≤ b.key) key) :=
      (List.sublist_mergeSort htrans htotal hequal List.filter_sublist).filter _
    have hagain : under (under list key) key = under list key := by simp [under]
    rw [hagain] at hsub
    exact (hsub.eq_of_length ((List.mergeSort_perm list _).filter _).length_eq.symm).symm

theorem Sorts.entries_eq (h : q.Sorts list) :
    q.entries = list.mergeSort fun a b => a.key ≤ b.key :=
  eq_of_under_eq h.ordered (sorts_mergeSort list).ordered fun key =>
    (h.under_eq key).trans ((sorts_mergeSort list).under_eq key).symm

/-- A new entry comes last under its key. -/
theorem Sorts.insert (h : q.Sorts list) (key : κ) (item : ι) :
    (q.insert key item).Sorts (list ++ [⟨key, item⟩]) := by
  refine ⟨h.ordered.insert key item, fun k => ?_⟩
  have hparts : under list k = under (q.upTo key) k ++ under (q.after key) k := by
    rw [← h.under_eq, ← under_append, upTo_append_after]
  have hentries : under (q.insert key item).entries k =
      under (q.upTo key) k ++ under [⟨key, item⟩] k ++ under (q.after key) k := by
    rw [← under_append, ← under_append, List.append_assoc, List.singleton_append]
    rfl
  rw [hentries, under_append, hparts]
  by_cases hk : IsUnder k (⟨key, item⟩ : Entry κ ι)
  · have hnone : under (q.after key) k = [] := by
      refine List.filter_eq_nil_iff.mpr fun e he => ?_
      have hlater := not_le_of_mem_after h.ordered he
      rw [decide_eq_true_eq]
      exact fun hek => hlater (Std.le_trans hek.1 hk.2)
    rw [hnone, List.append_nil, List.append_nil]
  · have hnone : under [(⟨key, item⟩ : Entry κ ι)] k = [] := by simpa [under] using hk
    rw [hnone, List.append_nil, List.append_nil]

/-- Leaves out, of the entries of an item, the first under the least key. -/
def withoutFirst [DecidableEq ι] (list : List (Entry κ ι)) (item : ι) : List (Entry κ ι) :=
  list.eraseP fun e => e.item = item ∧ ∀ f ∈ list, f.item = item → e.key ≤ f.key

namespace FirstEntry

variable [DecidableEq ι] {item : ι} {front back : List (Entry κ ι)}

/-- Taking the first entry out is taking it out from under its key. -/
theorem remove_entries (h : q.FirstEntry item front e back) :
    (q.remove item).entries =
      q.entries.eraseP fun f => decide (f.item = item) && decide (IsUnder e.key f) := by
  have hfront : ∀ f ∈ front, ¬ f.item = item := h.not_before
  have hitem := h.item_eq
  have hself := isUnder_self e
  rw [Queue.remove, h.entries_eq, List.eraseP_append_right _ (by simpa using hfront),
    List.eraseP_append_right _ (by simpa using fun f hf hitem => absurd hitem (hfront f hf)),
    List.eraseP_cons_of_pos (by simpa using hitem),
    List.eraseP_cons_of_pos (by simpa using ⟨hitem, hself⟩)]

/-- In a list that the queue sorts, its key is the least one of the item. -/
theorem withoutFirst_eq (h : q.FirstEntry item front e back) (hsorts : q.Sorts list) :
    withoutFirst list item =
      list.eraseP fun f => decide (f.item = item) && decide (IsUnder e.key f) := by
  have hleast : ∀ f ∈ list, f.item = item → e.key ≤ f.key := fun f hf =>
    h.le_of_mem hsorts.ordered (hsorts.perm.symm.subset hf)
  have he : e ∈ list := hsorts.perm.subset (by simp [h.entries_eq])
  refine eraseP_congr fun f hf => ?_
  rw [← Bool.decide_and, decide_eq_decide]
  constructor
  · rintro ⟨hitem, hall⟩
    exact ⟨hitem, hall e he h.item_eq, hleast f hf hitem⟩
  · rintro ⟨hitem, hle, -⟩
    exact ⟨hitem, fun g hg hgitem => Std.le_trans hle (hleast g hg hgitem)⟩

end FirstEntry

/-- The first entry of an item in the queue is the first under the least key in the list. -/
theorem Sorts.remove [DecidableEq ι] (h : q.Sorts list) (item : ι) :
    (q.remove item).Sorts (withoutFirst list item) := by
  refine ⟨h.ordered.remove item, fun k => ?_⟩
  by_cases hcontains : q.contains item = true
  · obtain ⟨front, e, back, hfirst, -⟩ := exists_firstEntry hcontains
    rw [hfirst.remove_entries, hfirst.withoutFirst_eq h]
    by_cases hk : IsUnder k e
    · rw [hk.under_eq, hk.under_eq, under, ← List.eraseP_filter, under, ← List.eraseP_filter]
      exact congrArg (List.eraseP _) (h.under_eq e.key)
    · have hother : ∀ f : Entry κ ι, (decide (f.item = item) && decide (IsUnder e.key f)) = true →
          ¬ IsUnder k f := by
        simp only [Bool.and_eq_true, decide_eq_true_eq]
        exact fun f hf hfk => hk ((hfk.congr e).mpr ⟨hf.2.2, hf.2.1⟩)
      rw [under_eraseP_of_not fun f _ => hother f, under_eraseP_of_not fun f _ => hother f, h.under_eq]
  · rw [Bool.not_eq_true] at hcontains
    have hnone : ∀ f ∈ list, ¬ f.item = item := fun f hf hitem => by
      rw [(contains_iff q item).mpr ⟨f, h.perm.symm.subset hf, hitem⟩] at hcontains
      cases hcontains
    rw [((contains_eq_false_iff q item).mp hcontains).2, h.under_eq, withoutFirst,
      List.eraseP_of_forall_not]
    simpa using fun f hf hitem => absurd hitem (hnone f hf)

end Queue
end Timekeeping
