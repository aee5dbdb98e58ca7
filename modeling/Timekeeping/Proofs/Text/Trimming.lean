import Timekeeping.Text.Numerals
import Mathlib.Data.List.TakeWhile

/-!
What trimming leaves of a text. Blanks put before and after make no difference to it, and as no
letter is blank it comes to the same before and after the letters are made small.
-/
namespace Timekeeping.Text

/-- All characters are blank. -/
def Blanks (cs : List Char) : Prop := ∀ c ∈ cs, isBlank c

variable {c : Char} {cs before after : List Char}

theorem Blanks.reverse (h : Blanks cs) : Blanks cs.reverse :=
  fun c hc => h c (List.mem_reverse.mp hc)

theorem trimEnd_append (cs : List Char) (hafter : Blanks after) :
    trimEnd (cs ++ after) = trimEnd cs := by
  unfold trimEnd
  rw [List.reverse_append, List.dropWhile_append_of_pos hafter.reverse]

theorem trimEnd_eq_nil (h : Blanks cs) : trimEnd cs = [] := trimEnd_append [] h

theorem trimEnd_of_forall (h : ∀ c ∈ cs, ¬ isBlank c) : trimEnd cs = cs := by
  have hback : cs.reverse.dropWhile isBlank = cs.reverse := by
    cases hcs : cs.reverse with
    | nil => rfl
    | cons c rest =>
      have hc : c ∈ cs := List.mem_reverse.mp (by simp [hcs])
      exact List.dropWhile_cons_of_neg (h c hc)
  unfold trimEnd
  rw [hback, List.reverse_reverse]

theorem trim_of_forall (h : ∀ c ∈ cs, ¬ isBlank c) : trim cs = cs := by
  have hfront : cs.dropWhile isBlank = cs := by
    cases cs with
    | nil => rfl
    | cons c cs => exact List.dropWhile_cons_of_neg (h c List.mem_cons_self)
  rw [trim, hfront, trimEnd_of_forall h]

/-- What is cut off at the end passes the test by which it is cut. -/
theorem exists_dropWhile_append_eq {α : Type} (p : α → Bool) (l : List α) :
    ∃ after, (∀ a ∈ after, p a) ∧ (l.reverse.dropWhile p).reverse ++ after = l := by
  refine ⟨(l.reverse.takeWhile p).reverse, ?_, ?_⟩
  · intro a ha
    exact List.mem_takeWhile_imp (List.mem_reverse.mp ha)
  · rw [← List.reverse_append, List.takeWhile_append_dropWhile, List.reverse_reverse]

theorem exists_trimEnd_append_eq (cs : List Char) :
    ∃ after, Blanks after ∧ trimEnd cs ++ after = cs :=
  exists_dropWhile_append_eq isBlank cs

/-- Trimming does not see blanks before and after the text. -/
theorem trim_append_append (cs : List Char) (hbefore : Blanks before) (hafter : Blanks after) :
    trim (before ++ cs ++ after) = trim cs := by
  unfold trim
  rw [List.append_assoc, List.dropWhile_append_of_pos hbefore, List.dropWhile_append]
  split
  · next hcs =>
    have hrest : Blanks (after.dropWhile isBlank) :=
      fun c hc => hafter c ((List.dropWhile_sublist _).subset hc)
    rw [List.isEmpty_iff.mp hcs, trimEnd_eq_nil hrest]
    rfl
  · exact trimEnd_append _ hafter

theorem toNat_toLower (c : Char) :
    c.toLower.toNat = if 65 ≤ c.toNat ∧ c.toNat ≤ 90 then c.toNat + 32 else c.toNat := by
  have hlow : c.val ≥ 'A'.val ↔ 65 ≤ c.toNat := UInt32.le_iff_toNat_le
  have hhigh : c.val ≤ 'Z'.val ↔ c.toNat ≤ 90 := UInt32.le_iff_toNat_le
  unfold Char.toLower
  simp only [hlow, hhigh]
  split
  · next h =>
    change (c.toNat + 32) % 2 ^ 32 = c.toNat + 32
    exact Nat.mod_eq_of_lt (by omega)
  · rfl

theorem toLower_toLower (c : Char) : c.toLower.toLower = c.toLower := by
  apply Char.toNat_inj.mp
  rw [toNat_toLower c.toLower, if_neg]
  have hc := toNat_toLower c
  split at hc <;> omega

/-- No letter is blank, in either case. -/
theorem isBlank_toLower (c : Char) : isBlank c.toLower = isBlank c := by
  unfold isBlank
  rw [toNat_toLower]
  split
  · grind
  · rfl

theorem Blanks.map_toLower (h : Blanks cs) : Blanks (cs.map Char.toLower) := by
  intro c hc
  obtain ⟨d, hd, rfl⟩ := List.mem_map.mp hc
  rw [isBlank_toLower]
  exact h d hd

theorem trimEnd_map_toLower (cs : List Char) :
    trimEnd (cs.map Char.toLower) = (trimEnd cs).map Char.toLower := by
  have hblank : isBlank ∘ Char.toLower = isBlank := funext isBlank_toLower
  unfold trimEnd
  rw [← List.map_reverse, List.dropWhile_map, hblank, List.map_reverse]

theorem trim_map_toLower (cs : List Char) :
    trim (cs.map Char.toLower) = (trim cs).map Char.toLower := by
  have hblank : isBlank ∘ Char.toLower = isBlank := funext isBlank_toLower
  unfold trim
  rw [List.dropWhile_map, hblank, trimEnd_map_toLower]

end Timekeeping.Text
