import Rv64Vm.Lib.Bytes

/-! # Byte strings in memory

`put` overwrites memory with a list of bytes. A buffer that is filled piece by
piece is one `put` of a list in which a piece takes the place of as many zeros.
`padded` rounds a list up to whole words with zeros.
-/

namespace Rv64Vm.Lib

/-- Overwrite the bytes from `off` on. -/
def put (buf : Nat → Byte) (off : Nat) (bytes : List Byte) : Nat → Byte :=
  fun i => if off ≤ i then bytes[i - off]?.getD (buf i) else buf i

def zeros (n : Nat) : List Byte := List.replicate n 0

@[simp] theorem length_zeros (n : Nat) : (zeros n).length = n := List.length_replicate

theorem zeros_add (m n : Nat) : zeros (m + n) = zeros m ++ zeros n :=
  List.replicate_append_replicate.symm

section Put

variable {buf : Nat → Byte} {off : Nat} {bytes : List Byte}

theorem put_outside {i : Nat} (outside : i < off ∨ off + bytes.length ≤ i) : put buf off bytes i = buf i := by
  unfold put
  split
  case isTrue => rw [List.getElem?_eq_none (by omega)]; rfl
  case isFalse => rfl

theorem put_at (k : Nat) : put buf off bytes (off + k) = bytes[k]?.getD (buf (off + k)) := by
  rw [put, if_pos (Nat.le_add_right ..), Nat.add_sub_cancel_left]

/-- A piece takes the place of one of the same length. -/
theorem put_into {before old new after : List Byte} (length : new.length = old.length) :
    put (put buf off (before ++ old ++ after)) (off + before.length) new = put buf off (before ++ new ++ after) := by
  funext i
  by_cases low : i < off + before.length
  · rw [put_outside (.inl low)]
    by_cases lower : i < off
    · rw [put_outside (.inl lower), put_outside (.inl lower)]
    · obtain ⟨k, rfl⟩ := Nat.exists_eq_add_of_le (Nat.le_of_not_lt lower)
      have inside : k < before.length := by omega
      rw [put_at, put_at, List.append_assoc, List.append_assoc, List.getElem?_append_left inside,
        List.getElem?_append_left inside]
  · obtain ⟨k, rfl⟩ := Nat.exists_eq_add_of_le (Nat.le_of_not_lt low)
    rw [put_at, Nat.add_assoc, put_at, put_at, List.append_assoc, List.append_assoc,
      List.getElem?_append_right (Nat.le_add_right ..), List.getElem?_append_right (Nat.le_add_right ..),
      Nat.add_sub_cancel_left]
    by_cases inside : k < new.length
    · rw [List.getElem?_append_left inside, List.getElem?_eq_getElem inside]
      rfl
    · rw [List.getElem?_append_right (Nat.le_of_not_lt inside), List.getElem?_append_right (by omega),
        List.getElem?_eq_none (Nat.le_of_not_lt inside), length]
      rfl

theorem put_zeros {before new after : List Byte} {n : Nat} (fits : new.length ≤ n) :
    put (put buf off (before ++ zeros n ++ after)) (off + before.length) new =
      put buf off (before ++ new ++ zeros (n - new.length) ++ after) := by
  have split : zeros n = zeros new.length ++ zeros (n - new.length) := by
    rw [← zeros_add, Nat.add_sub_of_le fits]
  rw [split, ← List.append_assoc, List.append_assoc (before ++ zeros new.length), put_into (length_zeros _).symm]
  simp

end Put

/-! ## Words -/

/-- The length in whole words. -/
def roundUp (n : Nat) : Nat := (n + 3) / 4 * 4

def padded (bytes : List Byte) : List Byte := bytes ++ zeros (roundUp bytes.length - bytes.length)

theorem le_roundUp (n : Nat) : n ≤ roundUp n := by unfold roundUp; omega

theorem roundUp_mod (n : Nat) : roundUp n % 4 = 0 := by unfold roundUp; omega

theorem roundUp_add {a : Nat} (aligned : a % 4 = 0) (n : Nat) : roundUp (a + n) = a + roundUp n := by
  unfold roundUp
  omega

@[simp] theorem length_padded (bytes : List Byte) : (padded bytes).length = roundUp bytes.length := by
  rw [padded, List.length_append, length_zeros, Nat.add_sub_of_le (le_roundUp _)]

end Rv64Vm.Lib
