import Timekeeping.Proofs.Json.RoundTrip

/-!
Records read back: a record has the fields that it was made of, and words are integers in their range.
-/
namespace Timekeeping.Json

variable {members : List (String × Json)} {name : String} {value : Json}

theorem filter_of_mem (hnodup : (members.map Prod.fst).Nodup) (h : (name, value) ∈ members) :
    members.filter (·.1 = name) = [(name, value)] := by
  induction members with
  | nil => cases h
  | cons member members ih =>
    rw [List.map_cons, List.nodup_cons] at hnodup
    rcases List.mem_cons.mp h with rfl | h
    · have hothers : members.filter (·.1 = name) = [] := by
        rw [List.filter_eq_nil_iff]
        intro other hother
        have hmem : other.1 ∈ members.map Prod.fst := List.mem_map_of_mem hother
        have hne : other.1 ≠ name := ne_of_mem_of_not_mem hmem hnodup.1
        simpa using hne
      rw [List.filter_cons_of_pos (by simp), hothers]
    · have hmem : name ∈ members.map Prod.fst := List.mem_map_of_mem h
      have hne : member.1 ≠ name := (ne_of_mem_of_not_mem hmem hnodup.1).symm
      rw [List.filter_cons_of_neg (by simpa using hne), ih hnodup.2 h]

theorem member?_of_mem (hnodup : (members.map Prod.fst).Nodup) (h : (name, value) ∈ members) :
    member? members name = some (some value) := by
  unfold member?
  rw [filter_of_mem hnodup h]

/-- A record with different names has just its own fields. -/
theorem fields?_record (hnodup : (members.map Prod.fst).Nodup) :
    (record members).fields? (members.map Prod.fst) = some (members.map fun m => some m.2) := by
  have hvalues : ∀ rows ⊆ members,
      rows.mapM (fun m => member? members m.1) = some (rows.map fun m => some m.2) := by
    intro rows hrows
    induction rows with
    | nil => rfl
    | cons row rows ih =>
      obtain ⟨hrow, hrows⟩ := List.cons_subset.mp hrows
      rw [List.mapM_cons, member?_of_mem hnodup hrow, ih hrows]
      rfl
  have hnamed : (members.map fun m => (some m.1, m.2)).mapM
      (fun m : Option String × Json => m.1.map (·, m.2)) = some members := by
    rw [List.mapM_map]
    exact List.mapM_pure.trans (by simp)
  change (List.mapM (fun m : Option String × Json => m.1.map (·, m.2))
    (members.map fun m => (some m.1, m.2))).bind
      (fun named => (members.map Prod.fst).mapM (member? named)) = _
  rw [hnamed, Option.bind_some, List.mapM_map]
  exact hvalues members (List.Subset.refl members)

theorem allFields?_record (hnodup : (members.map Prod.fst).Nodup) :
    (record members).allFields? (members.map Prod.fst) = some (members.map Prod.snd) := by
  unfold allFields?
  rw [fields?_record hnodup, Option.bind_eq_bind, Option.bind_some, List.mapM_map]
  exact List.mapM_pure

theorem Plain.record (h : ∀ m ∈ members, m.2.Plain) : (record members).Plain := by
  refine .object ?_ ?_
  · intro member hmember
    obtain ⟨m, -, rfl⟩ := List.mem_map.mp hmember
    rfl
  · intro member hmember
    obtain ⟨m, hm, rfl⟩ := List.mem_map.mp hmember
    exact h m hm

theorem integerIn?_of_mem {low high n : Int} (hlow : low ≤ n) (hhigh : n ≤ high) :
    integerIn? low high (integer n) = some n :=
  if_pos ⟨hlow, hhigh⟩

theorem int64?_integer (n : Int64) : int64? (integer n.toInt) = some n := by
  unfold int64?
  rw [integerIn?_of_mem (Int64.minValue_le_toInt n) (Int64.toInt_le n), Option.map_some,
    Int64.ofInt_toInt]

theorem uint64?_integer (n : UInt64) : uint64? (integer n.toNat) = some n := by
  have hn := n.toNat_lt
  unfold uint64?
  rw [integerIn?_of_mem (by omega) (by omega), Option.map_some, Int.toNat_natCast,
    UInt64.ofNat_toNat]

theorem uint32?_integer (n : UInt32) : uint32? (integer n.toNat) = some n := by
  have hn := n.toNat_lt
  unfold uint32?
  rw [integerIn?_of_mem (by omega) (by omega), Option.map_some, Int.toNat_natCast,
    UInt32.ofNat_toNat]

theorem uint8?_integer (n : UInt8) : uint8? (integer n.toNat) = some n := by
  have hn := n.toNat_lt
  unfold uint8?
  rw [integerIn?_of_mem (by omega) (by omega), Option.map_some, Int.toNat_natCast, UInt8.ofNat_toNat]

end Timekeeping.Json
