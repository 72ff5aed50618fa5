/-
# What RAM holds

Storing bytes from an offset on changes those bytes and no others (`byteAt_load`), whatever pages
they fall into; what would land past the end of the buffer is dropped.  So a program that is
loaded into a new RAM stands at its start, cut to the buffer, with zeros behind it
(`bytes_load_ofSize`).
-/
import Ledboard.Ram

namespace Ledboard.Ram

/-- Storing a list of bytes, one after another, in the pages. -/
theorem byteIn_storeFrom (pages : Array (Array UInt8)) (offset : Nat) (bytes : List UInt8)
    (i : Nat) :
    byteIn (storeFrom pages offset bytes) i =
      if offset ≤ i ∧ i < offset + bytes.length then bytes.getD (i - offset) 0
      else byteIn pages i := by
  induction bytes generalizing pages offset with
  | nil =>
    rw [storeFrom, if_neg]
    simp only [List.length_nil]
    omega
  | cons b bs ih =>
    rw [storeFrom, ih, byteIn_setIn]
    simp only [List.length_cons]
    rcases Nat.lt_trichotomy i offset with hi | rfl | hi
    · rw [if_neg (by omega), if_neg (by omega), if_neg (by omega)]
    · rw [if_neg (by omega), if_pos rfl, if_pos (by omega), Nat.sub_self]
      rfl
    · obtain ⟨k, rfl⟩ : ∃ k, i = offset + 1 + k := ⟨i - (offset + 1), by omega⟩
      rw [if_neg (by omega : ¬ offset + 1 + k = offset)]
      by_cases hk : k < bs.length
      · rw [if_pos (by omega), if_pos (by omega)]
        rw [show offset + 1 + k - offset = k + 1 by omega, Nat.add_sub_cancel_left]
        rfl
      · rw [if_neg (by omega), if_neg (by omega)]

/-- **Loading changes the bytes it covers and no others**, and none past the end. -/
theorem byteAt_load (ram : Ram) (offset : Nat) (bytes : List UInt8) (i : Nat) :
    (ram.load offset bytes).byteAt i =
      if offset ≤ i ∧ i < offset + bytes.length ∧ i < ram.capacity then bytes.getD (i - offset) 0
      else ram.byteAt i := by
  have hcap : (ram.load offset bytes).capacity = ram.capacity := rfl
  have hroom : ram.room offset bytes.length ≤ bytes.length := Nat.min_le_left _ _
  unfold byteAt
  rw [hcap]
  by_cases hi : i < ram.capacity
  · simp only [if_pos hi, load, byteIn_storeFrom, List.length_take, Nat.min_eq_left hroom]
    by_cases hcover : offset ≤ i ∧ i < offset + bytes.length
    · have hin : i - offset < ram.room offset bytes.length := by
        unfold room
        omega
      rw [if_pos ⟨hcover.1, by omega⟩, if_pos ⟨hcover.1, hcover.2, hi⟩]
      simp only [List.getD_eq_getElem?_getD, List.getElem?_take_of_lt hin]
    · rw [if_neg (fun h => hcover ⟨h.1, by omega⟩), if_neg (fun h => hcover ⟨h.1, h.2.1⟩)]
  · rw [if_neg hi, if_neg hi, if_neg (fun h => hi h.2.2)]

/-- A write touches nothing in front of its offset. -/
theorem byteAt_write_of_lt (ram : Ram) {offset i : Nat} (word : Word) (h : i < offset) :
    (ram.write offset word).byteAt i = ram.byteAt i := by
  unfold write
  rw [byteAt_load, if_neg (fun hcover => absurd hcover.1 (Nat.not_le_of_lt h))]

/-- A program at the start of a new RAM, byte by byte. -/
theorem byteAt_load_ofSize (size : Nat) (program : List UInt8) (i : Nat) :
    ((ofSize size).load 0 program).byteAt i =
      if i < size + padding then program.getD i 0 else 0 := by
  rw [byteAt_load, byteAt_ofSize]
  simp only [Nat.zero_le, true_and, Nat.zero_add, Nat.sub_zero, capacity, ofSize]
  by_cases hp : i < program.length
  · simp only [hp, true_and]
  · rw [if_neg (fun h => hp h.1), List.getD_eq_getElem?_getD, List.getElem?_eq_none (by omega)]
    simp

/-- **A program in a new RAM** is cut to the buffer and followed by zeros. -/
theorem bytes_load_ofSize (size : Nat) (program : List UInt8) :
    ((ofSize size).load 0 program).bytes =
      program.take (size + padding) ++ List.replicate (size + padding - program.length) 0 := by
  apply List.ext_getElem?
  intro i
  have hcap : ((ofSize size).load 0 program).capacity = size + padding := rfl
  simp only [Ram.bytes, slice, hcap, Nat.sub_zero, Nat.min_self, Nat.zero_add, List.getElem?_map]
  by_cases hi : i < size + padding
  · rw [List.getElem?_range hi, Option.map_some, byteAt_load_ofSize, if_pos hi]
    by_cases hp : i < program.length
    · rw [List.getElem?_append_left (by rw [List.length_take]; omega), List.getElem?_take_of_lt hi,
        List.getD_eq_getElem?_getD, List.getElem?_eq_getElem hp]
      rfl
    · rw [List.getElem?_append_right (by rw [List.length_take]; omega), List.length_take,
        List.getElem?_replicate_of_lt (by omega), List.getD_eq_getElem?_getD,
        List.getElem?_eq_none (by omega)]
      rfl
  · rw [List.getElem?_eq_none (by simpa using hi), Option.map_none, eq_comm]
    apply List.getElem?_eq_none
    simp only [List.length_append, List.length_take, List.length_replicate]
    omega

end Ledboard.Ram
