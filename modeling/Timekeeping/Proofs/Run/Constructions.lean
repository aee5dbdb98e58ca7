import Mathlib.Data.List.Induction
import Timekeeping.Script.Step

/-!
Where the callbacks of a script were made. A callback is the same as another one just if both
come from one construction, by itself or through any number of clones. Its name says nothing
about that.
-/
namespace Timekeeping.Script

/-- The callback at a place was made there, or it is a clone of one at an earlier place. A clone of a
callback that is not there yet is one of its own. -/
inductive MadeAt (sources : List RoleSource) : Nat → Nat → Prop
  | own {i : Nat} {name : Option String} {runs : List (List Line)} {cyclic : Bool}
      (h : sources[i]? = some (.own name runs cyclic)) : MadeAt sources i i
  | astray {i place : Nat} (h : sources[i]? = some (.clone place)) (hplace : i ≤ place) :
      MadeAt sources i i
  | clone {i place j : Nat} (h : sources[i]? = some (.clone place)) (hplace : place < i)
      (hmade : MadeAt sources place j) : MadeAt sources i j

/-- The callbacks at two places come from one construction. -/
def SameMake (sources : List RoleSource) (i j : Nat) : Prop :=
  ∃ k, MadeAt sources i k ∧ MadeAt sources j k

variable {sources : List RoleSource} {i j k k' : Nat} {source : RoleSource}

/-- What a source adds to the roles that were made before. -/
def RoleSource.role (made : List Role) : RoleSource → Role
  | .own name runs cyclic => ⟨⟨made.length, name⟩, runs, cyclic⟩
  | .clone place => made.getD place ⟨⟨made.length, none⟩, [], false⟩

theorem roles_append_singleton (sources : List RoleSource) (source : RoleSource) :
    roles (sources ++ [source]) = roles sources ++ [source.role (roles sources)] := by
  unfold roles
  rw [List.foldl_append]
  cases source <;> rfl

theorem length_roles (sources : List RoleSource) : (roles sources).length = sources.length := by
  induction sources using List.reverseRecOn with
  | nil => rfl
  | append_singleton sources source ih => simp [roles_append_singleton, ih]

/-- A role is made from its source and the roles before it. -/
theorem getElem?_roles (h : sources[i]? = some source) :
    (roles sources)[i]? = some (source.role ((roles sources).take i)) ∧
      (roles sources).take i = roles (sources.take i) := by
  induction sources using List.reverseRecOn with
  | nil => simp at h
  | append_singleton sources last ih =>
    have hlength := length_roles sources
    rw [roles_append_singleton]
    rcases Nat.lt_trichotomy i sources.length with hi | rfl | hi
    · rw [List.getElem?_append_left hi] at h
      obtain ⟨hrole, htake⟩ := ih h
      rw [List.getElem?_append_left (hlength ▸ hi), List.take_append_of_le_length (by omega),
        List.take_append_of_le_length (by omega)]
      exact ⟨hrole, htake⟩
    · obtain rfl : last = source := by simpa using h
      rw [List.getElem?_append_right (by omega), List.take_left' hlength, List.take_left' rfl]
      simp [hlength]
    · rw [List.getElem?_eq_none (by simp; omega)] at h
      cases h

theorem callbackAt_of_own {name : Option String} {runs : List (List Line)} {cyclic : Bool}
    (h : sources[i]? = some (.own name runs cyclic)) :
    callbackAt (roles sources) i = ⟨i, name⟩ := by
  have hi : i < sources.length := (List.getElem?_eq_some_iff.mp h).1
  have hlength := length_roles sources
  unfold callbackAt
  rw [(getElem?_roles h).1]
  simp only [RoleSource.role, List.length_take, hlength]
  rw [Nat.min_eq_left (Nat.le_of_lt hi)]

theorem callbackAt_of_clone {place : Nat} (h : sources[i]? = some (.clone place)) :
    callbackAt (roles sources) i =
      if place < i then callbackAt (roles sources) place else ⟨i, none⟩ := by
  have hi : i < sources.length := (List.getElem?_eq_some_iff.mp h).1
  have hlength := length_roles sources
  unfold callbackAt
  rw [(getElem?_roles h).1]
  simp only [RoleSource.role, List.length_take, hlength, List.getD_eq_getElem?_getD]
  split
  · next hplace =>
    rw [List.getElem?_take_of_lt hplace,
      List.getElem?_eq_getElem (show place < (roles sources).length by omega)]
    rfl
  · next hplace =>
    rw [List.getElem?_eq_none (by simp; omega), Nat.min_eq_left (Nat.le_of_lt hi)]
    rfl

/-- The key of a callback is the place at which it was made. -/
theorem MadeAt.key_eq (h : MadeAt sources i k) : (callbackAt (roles sources) i).key = k := by
  induction h with
  | own h => rw [callbackAt_of_own h]
  | astray h hplace => rw [callbackAt_of_clone h, if_neg (Nat.not_lt.mpr hplace)]
  | clone h hplace _ ih => rw [callbackAt_of_clone h, if_pos hplace, ih]

theorem exists_madeAt (h : i < sources.length) : ∃ k, MadeAt sources i k := by
  induction i using Nat.strongRecOn with
  | ind i ih =>
    cases hsource : sources[i] with
    | own name runs cyclic => exact ⟨i, .own (List.getElem?_eq_some_iff.mpr ⟨h, hsource⟩)⟩
    | clone place =>
      have hclone : sources[i]? = some (.clone place) :=
        List.getElem?_eq_some_iff.mpr ⟨h, hsource⟩
      rcases Nat.lt_or_ge place i with hplace | hplace
      · obtain ⟨k, hmade⟩ := ih place hplace (Nat.lt_trans hplace h)
        exact ⟨k, .clone hclone hplace hmade⟩
      · exact ⟨i, .astray hclone hplace⟩

/-- Two callbacks have one key just if they come from one construction. -/
theorem key_eq_iff_sameMake (hi : i < sources.length) (hj : j < sources.length) :
    (callbackAt (roles sources) i).key = (callbackAt (roles sources) j).key ↔
      SameMake sources i j := by
  constructor
  · intro hkey
    obtain ⟨k, hmade⟩ := exists_madeAt hi
    obtain ⟨k', hmade'⟩ := exists_madeAt hj
    obtain rfl : k = k' := hmade.key_eq.symm.trans (hkey.trans hmade'.key_eq)
    exact ⟨k, hmade, hmade'⟩
  · rintro ⟨k, hmade, hmade'⟩
    exact hmade.key_eq.trans hmade'.key_eq.symm

end Timekeeping.Script
