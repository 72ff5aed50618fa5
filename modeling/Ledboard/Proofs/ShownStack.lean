/-
# The stack in a snapshot

A snapshot lists the words below the stack pointer from the top down, and of a pointer beyond the
buffer it lists the whole buffer.  Pops go down from the pointer itself, around the ring.  The two
agree as long as the pointer stands in the buffer or right behind it.  Once it has left the buffer,
because of more than 256 words on the stack or of a pop from an empty one, a snapshot still starts
at the last slot of the buffer, while pops start at the slot below the pointer: the words listed
are those that 256 pops return, but turned (`snapshot_shows_stack`).  So the first word listed need
not be the top of the stack (`snapshot_misplaces_top`).

* **Slots** (`getElem?_snapshot`, `getElem?_popMany`).  A snapshot and pops both read slots
  backwards, from different places on.
* **In the buffer** (`snapshot_of_le`).  The two places are the same.
* **Beyond it** (`snapshot_of_gt`).  They are as far apart as the pointer's slot is from the first
  one.
-/
import Mathlib.Data.List.Rotate
import Ledboard.Proofs.StackRing

namespace Ledboard.Processor

variable {p : Processor} {k n : Nat}

/-! ## 1. Slots -/

theorem shownWords_eq (sp : UInt32) : shownWords sp = min sp.toNat 1024 / 4 := rfl

theorem shownWords_le (sp : UInt32) : shownWords sp ≤ 256 := by
  rw [shownWords_eq]
  omega

theorem length_snapshot (p : Processor) : p.snapshot.stack.length = shownWords p.sp := by
  have hshown := shownWords_le p.sp
  simp only [snapshot, List.length_reverse, List.length_map, List.length_take, Vector.length_toList]
  omega

theorem length_popMany (p : Processor) (n : Nat) : (p.popMany n).1.length = n := by
  induction n generalizing p with
  | zero => rfl
  | succ n ih => rw [popMany, List.length_cons, ih]

/-- A snapshot reads the slots backwards, from the last one that it shows. -/
theorem getElem?_snapshot (p : Processor) (hk : k < shownWords p.sp) :
    p.snapshot.stack[k]? = p.stack.toList[shownWords p.sp - 1 - k]?.map Word.toInt32 := by
  have hshown := shownWords_le p.sp
  have hlength : ((p.stack.toList.take (shownWords p.sp)).map Word.toInt32).length =
      shownWords p.sp := by
    simp only [List.length_map, List.length_take, Vector.length_toList]
    omega
  have hlast : shownWords p.sp - 1 - k < shownWords p.sp := by omega
  rw [snapshot, List.getElem?_reverse (by rwa [hlength]), hlength, List.getElem?_map,
    List.getElem?_take_of_lt hlast]

/-- Pops read them backwards, from the slot below the stack pointer, around the ring. -/
theorem getElem?_popMany (p : Processor) (hn : n ≤ 256) (hk : k < n) :
    (p.popMany n).1[k]? = p.stack.toList[(slot p.sp + 255 - k) % 256]? := by
  have hslot := slot_lt p.sp
  have hplace : (slot p.sp + (256 - n) + (n - 1 - k)) % 256 = (slot p.sp + 255 - k) % 256 := by
    congr 1
    omega
  have hstart : slot p.sp = (slot p.sp + (256 - n) + n) % 256 := by omega
  rw [fst_popMany hstart, List.getElem?_map, List.getElem?_range hk, Option.map_some,
    List.getElem?_eq_getElem (by rw [Vector.length_toList]; omega), Vector.getElem_toList]
  simp only [hplace]

/-! ## 2. The two readings -/

/-- **In the buffer a snapshot lists what pops return.** -/
theorem snapshot_of_le (h : p.sp.toNat ≤ 1024) :
    p.snapshot.stack = (p.popMany (p.sp.toNat / 4)).1.map Word.toInt32 := by
  have hshown : shownWords p.sp = p.sp.toNat / 4 := by rw [shownWords_eq, Nat.min_eq_left h]
  refine List.ext_getElem? fun k => ?_
  by_cases hk : k < p.sp.toNat / 4
  · have hplace : shownWords p.sp - 1 - k = (slot p.sp + 255 - k) % 256 := by
      simp only [hshown, slot, Word.size, stackWords]
      omega
    rw [getElem?_snapshot p (hshown ▸ hk), List.getElem?_map, getElem?_popMany p (by omega) hk,
      hplace]
  · rw [List.getElem?_eq_none (by rw [length_snapshot, hshown]; omega),
      List.getElem?_eq_none (by rw [List.length_map, length_popMany]; omega)]

/-- **Beyond it a snapshot lists what pops return, turned** by as many words as the slot of the
stack pointer is away from the first slot. -/
theorem snapshot_of_gt (h : 1024 < p.sp.toNat) :
    p.snapshot.stack = ((p.popMany 256).1.map Word.toInt32).rotate (slot p.sp) := by
  have hshown : shownWords p.sp = 256 := by rw [shownWords_eq, Nat.min_eq_right (Nat.le_of_lt h)]
  have hcount : ((p.popMany 256).1.map Word.toInt32).length = 256 := by
    rw [List.length_map, length_popMany]
  have hslot := slot_lt p.sp
  refine List.ext_getElem? fun k => ?_
  by_cases hk : k < 256
  · -- The pop that reads the slot listed `k`-th comes as many pops later as the list is turned.
    have hplace : shownWords p.sp - 1 - k = (slot p.sp + 255 - (k + slot p.sp) % 256) % 256 := by
      rw [hshown]
      omega
    rw [getElem?_snapshot p (hshown ▸ hk), List.getElem?_rotate (by rwa [hcount]), hcount,
      List.getElem?_map, getElem?_popMany p (Nat.le_refl 256) (Nat.mod_lt _ (by decide)), hplace]
  · rw [List.getElem?_eq_none (by rw [length_snapshot, hshown]; omega),
      List.getElem?_eq_none (by rw [List.length_rotate, hcount]; omega)]

/-- The word of a slot is four bytes of the buffer. -/
theorem ofList_drop_buffer (p : Processor) (hn : n < 256) :
    p.stack.toList[n]? = some (Word.ofList (p.buffer.drop (4 * n))) := by
  have hlength : n < p.stack.toList.length := by rwa [Vector.length_toList]
  rw [buffer, drop_flatMap_toList _ (Nat.le_of_lt hlength), List.drop_eq_getElem_cons hlength,
    List.flatMap_cons, List.getElem?_eq_getElem hlength]
  rfl

/-! ## 3. The whole -/

/-- How the words that a snapshot lists compare with those that pops return. -/
structure ShowsStack (p : Processor) : Prop where
  /-- the words up to the stack pointer are listed, or all of the buffer -/
  count : p.snapshot.stack.length = min p.sp.toNat stackBytes / 4
  /-- from the last of these words down to the first word of the buffer -/
  words : ∀ k < p.snapshot.stack.length, p.snapshot.stack[k]? =
    some (Word.ofList (p.buffer.drop (4 * (p.snapshot.stack.length - 1 - k)))).toInt32
  /-- pops return the same, while the stack pointer has not left the buffer -/
  inside : p.sp.toNat ≤ stackBytes →
    p.snapshot.stack = (p.popMany (p.sp.toNat / 4)).1.map Word.toInt32
  /-- and they return it from another word on, once it has -/
  outside : stackBytes < p.sp.toNat →
    p.snapshot.stack = ((p.popMany 256).1.map Word.toInt32).rotate (slot p.sp)

theorem showsStack (p : Processor) : p.ShowsStack where
  count := length_snapshot p
  words := by
    intro k hk
    rw [length_snapshot] at hk
    have hshown := shownWords_le p.sp
    rw [getElem?_snapshot p hk, length_snapshot, ofList_drop_buffer p (by omega), Option.map_some]
  inside := snapshot_of_le
  outside := snapshot_of_gt

/-- **A snapshot shows the stack while the stack pointer is in the buffer.**  However long the
processor has run, on any bus, the stack pointer stands in front of a whole word, and

* if it is not beyond the end of the buffer, a snapshot lists the words below it, which are the
  words that pops return, in the same order and as many as there are;
* if it is, because more was pushed than there is room for or more was popped than was pushed, a
  snapshot lists all words of the buffer, which are the words that 256 pops return but turned, by
  as many places as the slot of the stack pointer is away from the first one. -/
theorem snapshot_shows_stack {β : Type} [Addressable β] (bus : β) (n : Nat) :
    (initial.after bus n).1.Aligned ∧ (initial.after bus n).1.ShowsStack :=
  ⟨aligned_after bus n, showsStack _⟩

/-- Three words are pushed and one of them is popped: a snapshot lists the other two, the top one
first, as two pops return them. -/
theorem snapshot_shows_stack_of_two_words :
    let bus := (Bus.empty #[]).connect (.ram ((Ram.ofSize 64).load 0
      [2, 0, 0, 0, 1, 2, 0, 0, 0, 2, 2, 255, 255, 255, 249, 3, 0, 0])) 0 63
    let p := (initial.after bus 4).1
    p.sp.toNat ≤ stackBytes ∧ p.snapshot.stack = (p.popMany 2).1.map Word.toInt32 ∧
      p.snapshot.stack = [2, 1] := by
  intro bus p
  have hsp : p.sp = 8 := by decide +kernel
  have hinside : p.sp.toNat ≤ stackBytes := by
    rw [hsp]
    decide
  have hpops := (snapshot_shows_stack bus 4).2.inside hinside
  rw [hsp] at hpops
  exact ⟨hinside, hpops, hpops.trans (by decide +kernel)⟩

/-- A word is popped from an empty stack, another one is pushed, and popped again.  The word that a
snapshot lists first is the one that was popped last, and the next pop returns another one. -/
theorem snapshot_misplaces_top :
    let bus := (Bus.empty #[]).connect
      (.ram ((Ram.ofSize 64).load 0 [3, 0, 2, 0, 0, 0, 7, 3, 0, 3, 1, 0])) 0 63
    let p := (initial.after bus 3).1
    p.sp = 0xfffffffc ∧ p.snapshot.stack[0]? = some 7 ∧ p.snapshot.stack[255]? = some 0 ∧
      p.pop.1.toInt32 = 0 ∧ ((p.popMany 256).1.map Word.toInt32)[255]? = some 7 := by
  refine ⟨?_, ?_, ?_, ?_, ?_⟩ <;> decide +kernel

end Ledboard.Processor
