import Timekeeping.Proofs.Text.Digits
import Mathlib.Data.List.TakeWhile

/-!
The bytes that characters are encoded in. An ASCII character is one byte, and no other character has a
byte that could be taken for one. So a run of bytes of an ASCII kind begins and ends between characters,
wherever its search begins between characters.
-/
namespace Timekeeping.Text

def bytes (cs : List Char) : List UInt8 := cs.flatMap String.utf8EncodeChar

/-- Whether the byte is an ASCII character of a kind. -/
def onByte (kind : Char → Bool) (b : UInt8) : Bool := kind (Char.ofUInt8 b)

/-- The first position from `pos` on that does not hold a byte of a kind. -/
def skip (p : UInt8 → Bool) (bs : List UInt8) (pos : Nat) : Nat :=
  if h : pos < bs.length then
    if p bs[pos] then skip p bs (pos + 1) else pos
  else pos
termination_by bs.length - pos

/-- The characters after `n` bytes, unless that cuts a character. -/
def dropBytes? : Nat → List Char → Option (List Char)
  | 0, cs => some cs
  | _ + 1, [] => none
  | n + 1, c :: cs => if c.utf8Size ≤ n + 1 then dropBytes? (n + 1 - c.utf8Size) cs else none

/-- The characters in the first `n` bytes, unless that cuts a character. -/
def takeBytes? : Nat → List Char → Option (List Char)
  | 0, _ => some []
  | _ + 1, [] => none
  | n + 1, c :: cs =>
    if c.utf8Size ≤ n + 1 then (takeBytes? (n + 1 - c.utf8Size) cs).map (c :: ·) else none

/-- The characters between two positions among the bytes. There are none if a position lies within a
character or after the end, or if the positions are in the wrong order. -/
def slice? (cs : List Char) (start stop : Nat) : Option (List Char) :=
  if start ≤ stop then (dropBytes? start cs).bind (takeBytes? (stop - start)) else none

/-- All characters of the kind are ASCII. -/
def AsciiKind (kind : Char → Bool) : Prop := ∀ c, kind c → c.toNat < 128

variable {c : Char} {cs : List Char} {kind : Char → Bool}

@[simp] theorem bytes_append (cs ds : List Char) : bytes (cs ++ ds) = bytes cs ++ bytes ds :=
  List.flatMap_append

theorem bytes_cons (c : Char) (cs : List Char) :
    bytes (c :: cs) = String.utf8EncodeChar c ++ bytes cs := List.flatMap_cons

theorem length_bytes_cons (c : Char) (cs : List Char) :
    (bytes (c :: cs)).length = c.utf8Size + (bytes cs).length := by
  rw [bytes_cons, List.length_append, String.length_utf8EncodeChar]

theorem length_bytes_eq_zero_iff : (bytes cs).length = 0 ↔ cs = [] := by
  cases cs with
  | nil => simp [bytes]
  | cons c cs =>
    have hsize := c.utf8Size_pos
    rw [length_bytes_cons]
    simp
    omega

theorem utf8EncodeChar_of_lt (h : c.toNat < 128) :
    ∃ b, String.utf8EncodeChar c = [b] ∧ Char.ofUInt8 b = c := by
  have hsize : c.utf8Size = 1 := Char.utf8Size_eq_one_iff.mpr (UInt32.le_iff_toNat_le.mpr (by
    change c.toNat ≤ 127
    omega))
  refine ⟨c.val.toUInt8, String.utf8EncodeChar_eq_singleton hsize, ?_⟩
  apply Char.toNat_inj.mp
  change c.val.toUInt8.toUInt32.toNat = c.toNat
  rw [UInt8.toNat_toUInt32, UInt32.toNat_toUInt8]
  exact Nat.mod_eq_of_lt (by change c.toNat < _; omega)

/-- No byte of another character is an ASCII character. -/
theorem le_toNat_of_mem_utf8EncodeChar (h : 128 ≤ c.toNat) :
    ∀ b ∈ String.utf8EncodeChar c, 128 ≤ b.toNat := by
  have hval : ¬ c.val.toNat ≤ 127 := by
    change ¬ c.toNat ≤ 127
    omega
  unfold String.utf8EncodeChar
  dsimp only
  rw [if_neg hval]
  split_ifs <;> simp [UInt8.toNat_ofNat'] <;> omega

theorem onByte_eq_false (hkind : AsciiKind kind) {b : UInt8} (h : 128 ≤ b.toNat) :
    onByte kind b = false := by
  rw [Bool.eq_false_iff]
  intro hb
  have hlt := hkind _ hb
  change b.toUInt32.toNat < 128 at hlt
  rw [UInt8.toNat_toUInt32] at hlt
  omega

/-- A character has a byte of the kind only if it is of the kind itself. -/
theorem onByte_of_mem_utf8EncodeChar (hkind : AsciiKind kind) {b : UInt8}
    (hb : b ∈ String.utf8EncodeChar c) : onByte kind b = kind c := by
  by_cases hc : c.toNat < 128
  · obtain ⟨d, hd, hchar⟩ := utf8EncodeChar_of_lt hc
    obtain rfl : b = d := by simpa [hd] using hb
    rw [onByte, hchar]
  · rw [onByte_eq_false hkind (le_toNat_of_mem_utf8EncodeChar (not_lt.mp hc) b hb)]
    exact (Bool.eq_false_iff.mpr fun hkindc => hc (hkind c hkindc)).symm

theorem exists_utf8EncodeChar_eq_cons (c : Char) :
    ∃ b bs, String.utf8EncodeChar c = b :: bs := by
  apply List.exists_cons_of_ne_nil
  intro hnil
  have hlength := String.length_utf8EncodeChar c
  rw [hnil] at hlength
  exact absurd hlength.symm c.utf8Size_pos.ne'

theorem all_onByte_iff (hkind : AsciiKind kind) :
    (∀ b ∈ bytes cs, onByte kind b) ↔ ∀ c ∈ cs, kind c := by
  unfold bytes
  simp only [List.mem_flatMap]
  constructor
  · intro h c hc
    obtain ⟨b, bs, hbs⟩ := exists_utf8EncodeChar_eq_cons c
    have hb : b ∈ String.utf8EncodeChar c := by simp [hbs]
    exact (onByte_of_mem_utf8EncodeChar hkind hb).symm.trans (h b ⟨c, hc, hb⟩)
  · rintro h b ⟨c, hc, hb⟩
    rw [onByte_of_mem_utf8EncodeChar hkind hb]
    exact h c hc

/-- ASCII characters have one byte each. -/
theorem length_bytes_of_forall (hkind : AsciiKind kind) (h : ∀ c ∈ cs, kind c) :
    (bytes cs).length = cs.length := by
  induction cs with
  | nil => rfl
  | cons c cs ih =>
    obtain ⟨hc, hcs⟩ := List.forall_mem_cons.mp h
    obtain ⟨b, hb, -⟩ := utf8EncodeChar_of_lt (hkind c hc)
    rw [bytes_cons, List.length_append, hb, ih hcs, List.length_singleton, List.length_cons,
      Nat.add_comm]

/-- The bytes of the kind at the front of a text are those of the characters of the kind. -/
theorem takeWhile_bytes (hkind : AsciiKind kind) (cs : List Char) :
    (bytes cs).takeWhile (onByte kind) = bytes (cs.takeWhile kind) := by
  induction cs with
  | nil => rfl
  | cons c cs ih =>
    have hbytes := fun b (hb : b ∈ String.utf8EncodeChar c) =>
      onByte_of_mem_utf8EncodeChar hkind hb
    rw [bytes_cons]
    cases hc : kind c with
    | true =>
      rw [List.takeWhile_append_of_pos fun b hb => (hbytes b hb).trans hc, ih,
        List.takeWhile_cons_of_pos hc, bytes_cons]
    | false =>
      obtain ⟨b, bs, hbs⟩ := exists_utf8EncodeChar_eq_cons c
      have hb : onByte kind b = false := (hbytes b (by simp [hbs])).trans hc
      rw [hbs, List.cons_append, List.takeWhile_cons_of_neg (by simp [hb]),
        List.takeWhile_cons_of_neg (by simp [hc])]
      rfl

theorem skip_eq (p : UInt8 → Bool) (bs : List UInt8) (pos : Nat) :
    skip p bs pos = pos + ((bs.drop pos).takeWhile p).length := by
  induction pos using skip.induct p bs with
  | case1 pos h hp ih =>
    rw [skip, dif_pos h, if_pos hp, ih, List.drop_eq_getElem_cons h,
      List.takeWhile_cons_of_pos hp, List.length_cons]
    omega
  | case2 pos h hp =>
    rw [skip, dif_pos h, if_neg hp, List.drop_eq_getElem_cons h, List.takeWhile_cons_of_neg hp]
    rfl
  | case3 pos h =>
    rw [skip, dif_neg h, List.drop_eq_nil_of_le (not_lt.mp h)]
    rfl

/-- From a position between characters the search goes to another one. -/
theorem skip_bytes (hkind : AsciiKind kind) (cs ds : List Char) :
    skip (onByte kind) (bytes (cs ++ ds)) (bytes cs).length =
      (bytes (cs ++ ds.takeWhile kind)).length := by
  rw [skip_eq, bytes_append, List.drop_left, takeWhile_bytes hkind, bytes_append,
    List.length_append]

theorem dropBytes?_size_add (n : Nat) (c : Char) (cs : List Char) :
    dropBytes? (c.utf8Size + n) (c :: cs) = dropBytes? n cs := by
  obtain ⟨k, hk⟩ := Nat.exists_eq_succ_of_ne_zero c.utf8Size_pos.ne'
  rw [hk, Nat.succ_add, dropBytes?, if_pos (by omega)]
  congr 1
  omega

theorem takeBytes?_size_add (n : Nat) (c : Char) (cs : List Char) :
    takeBytes? (c.utf8Size + n) (c :: cs) = (takeBytes? n cs).map (c :: ·) := by
  obtain ⟨k, hk⟩ := Nat.exists_eq_succ_of_ne_zero c.utf8Size_pos.ne'
  rw [hk, Nat.succ_add, takeBytes?, if_pos (by omega)]
  congr 2
  omega

theorem dropBytes?_append (cs ds : List Char) :
    dropBytes? (bytes cs).length (cs ++ ds) = some ds := by
  induction cs with
  | nil => simp [bytes, dropBytes?]
  | cons c cs ih => rw [length_bytes_cons, List.cons_append, dropBytes?_size_add, ih]

theorem takeBytes?_append (cs ds : List Char) :
    takeBytes? (bytes cs).length (cs ++ ds) = some cs := by
  induction cs with
  | nil => simp [bytes, takeBytes?]
  | cons c cs ih =>
    rw [length_bytes_cons, List.cons_append, takeBytes?_size_add, ih]
    rfl

/-- A slice between positions that lie between characters. -/
theorem slice?_append (front cs rest : List Char) :
    slice? (front ++ cs ++ rest) (bytes front).length (bytes (front ++ cs)).length = some cs := by
  rw [bytes_append, List.length_append, slice?, if_pos (Nat.le_add_right _ _), List.append_assoc,
    dropBytes?_append, Option.bind_some, Nat.add_sub_cancel_left, takeBytes?_append]

end Timekeeping.Text
