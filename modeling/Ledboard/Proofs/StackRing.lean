/-
# The stack is a ring

The stack pointer counts bytes in 32 bits and is never checked.  Only its distance from a multiple
of the buffer's size matters, and since that size divides 2^32 nothing happens where the pointer
wraps: the words before and behind that place are as close together as any others.  So the stack is
a ring of 256 words from every stack pointer on, also below an empty stack: words that are pushed
come back last first, the last 256 of them, and then the same ones again (`stack_is_ring`).

* **Slots** (`slot_add_four`, `slot_sub_four`).  A push moves one slot on around the ring and a pop
  one slot back.
* **Words** (`getElem_pushAll_of_mem`, `getElem_pushAll_of_not_mem`).  The slots that pushes used
  hold the last words that were pushed, and the others what they held.  Pops change no slot, and
  read the slots backwards (`fst_popMany`).
* **Bytes** (`ActsOnBytes`).  The words lie in a buffer of 1024 bytes, each at the stack pointer
  modulo the size of the buffer, if the pointer is a multiple of four.  It always is
  (`aligned_after`).
-/
import Mathlib.Data.List.Induction
import Mathlib.Data.List.Nodup
import Ledboard.Proofs.Careful

namespace Ledboard.Processor

open Addressable

variable {p q : Processor} {ws : List Word} {n i j : Nat}

/-! ## 1. Slots -/

/-- A push goes on to the next slot of the ring. -/
theorem slot_add_four (sp : UInt32) : slot (sp + 4) = (slot sp + 1) % 256 := by
  have hfour : (4 : UInt32).toNat = 4 := rfl
  simp only [slot, Word.size, stackWords, UInt32.toNat_add, hfour]
  omega

/-- A pop goes back to the slot before, from the first slot to the last one. -/
theorem slot_sub_four (sp : UInt32) : slot sp = (slot (sp - 4) + 1) % 256 := by
  rw [← slot_add_four, UInt32.sub_add_cancel]

/-- The slots that a number of pushes use, from a stack pointer on: no more than there are. -/
def usedSlots (sp : UInt32) (n : Nat) : List Nat :=
  (List.range (min n 256)).map (fun j => (slot sp + j) % 256)

theorem mem_usedSlots_iff {sp : UInt32} :
    i ∈ usedSlots sp n ↔ ∃ j < n, (slot sp + j) % 256 = i := by
  simp only [usedSlots, List.mem_map, List.mem_range]
  constructor
  · rintro ⟨j, hj, rfl⟩
    exact ⟨j, by omega, rfl⟩
  · rintro ⟨j, hj, rfl⟩
    exact ⟨j % 256, by omega, by omega⟩

/-- The pushes use as many slots as there are pushes, or all of them. -/
theorem length_usedSlots (sp : UInt32) (n : Nat) : (usedSlots sp n).length = min n 256 := by
  rw [usedSlots, List.length_map, List.length_range]

theorem nodup_usedSlots (sp : UInt32) (n : Nat) : (usedSlots sp n).Nodup := by
  refine List.Nodup.map_on ?_ List.nodup_range
  intro j hj k hk hsame
  rw [List.mem_range] at hj hk
  omega

/-! ## 2. Many words -/

/-- Pushes words, one after another. -/
def pushAll (p : Processor) (ws : List Word) : Processor := ws.foldl push p

/-- Pops a number of words, and lists them in the order in which they come. -/
def popMany (p : Processor) : Nat → List Word × Processor
  | 0 => ([], p)
  | n + 1 => (p.pop.1 :: (p.pop.2.popMany n).1, (p.pop.2.popMany n).2)

theorem pushAll_concat (p : Processor) (ws : List Word) (w : Word) :
    p.pushAll (ws ++ [w]) = (p.pushAll ws).push w := by
  rw [pushAll, List.foldl_append]
  rfl

theorem slot_pushAll (p : Processor) (ws : List Word) :
    slot (p.pushAll ws).sp = (slot p.sp + ws.length) % 256 := by
  induction ws using List.reverseRecOn with
  | nil =>
    have hslot := slot_lt p.sp
    exact (Nat.mod_eq_of_lt hslot).symm
  | append_singleton ws w ih =>
    rw [pushAll_concat, push, slot_add_four, ih, List.length_append, List.length_singleton]
    omega

theorem getElem_push (p : Processor) (w : Word) (hi : i < 256) :
    (p.push w).stack[i] = if slot p.sp = i then w else p.stack[i] :=
  Vector.getElem_set (slot_lt p.sp) hi

/-- **The slots that pushes used hold the last 256 words**, or all of them if there are fewer. -/
theorem getElem_pushAll_of_mem (p : Processor) (ws : List Word) (hj : j < ws.length)
    (hlast : ws.length ≤ j + 256) (hi : (slot p.sp + j) % 256 < 256) :
    (p.pushAll ws).stack[(slot p.sp + j) % 256] = ws[j] := by
  induction ws using List.reverseRecOn with
  | nil => exact absurd hj (Nat.not_lt_zero j)
  | append_singleton ws w ih =>
    rw [List.length_append, List.length_singleton] at hj hlast
    simp only [pushAll_concat]
    rw [getElem_push, slot_pushAll]
    rcases Nat.lt_or_eq_of_le (Nat.le_of_lt_succ hj) with hbefore | rfl
    · -- Fewer than 256 slots lie between the two words, so they are not in the same slot.
      rw [if_neg (by omega), ih hbefore (by omega), List.getElem_append_left hbefore]
    · rw [if_pos rfl, List.getElem_concat_length rfl]

/-- The other slots hold what they held. -/
theorem getElem_pushAll_of_not_mem (p : Processor) (ws : List Word) (hi : i < 256)
    (hfree : i ∉ usedSlots p.sp ws.length) : (p.pushAll ws).stack[i] = p.stack[i] := by
  rw [mem_usedSlots_iff] at hfree
  induction ws using List.reverseRecOn with
  | nil => rfl
  | append_singleton ws w ih =>
    rw [List.length_append, List.length_singleton] at hfree
    simp only [pushAll_concat]
    rw [getElem_push, slot_pushAll, if_neg (fun h => hfree ⟨_, Nat.lt_succ_self _, h⟩)]
    exact ih (fun ⟨j, hj, h⟩ => hfree ⟨j, Nat.lt_succ_of_lt hj, h⟩)

/-- Pops read the slots backwards, around the ring. -/
theorem fst_popMany {s : Nat} (h : slot q.sp = (s + n) % 256) :
    (q.popMany n).1 = (List.range n).map (fun k => q.stack[(s + (n - 1 - k)) % 256]) := by
  induction n generalizing q with
  | zero => rfl
  | succ n ih =>
    have hback := slot_sub_four q.sp
    have hslot := slot_lt (q.sp - 4)
    have hnext : slot q.pop.2.sp = (s + n) % 256 := by
      simp only [pop]
      omega
    have htop : q.pop.1 = q.stack[(s + (n + 1 - 1 - 0)) % 256] := by
      change q.stack[slot (q.sp - 4)] = _
      have hplace : slot (q.sp - 4) = (s + (n + 1 - 1 - 0)) % 256 := hnext
      simp only [hplace]
    rw [popMany, ih hnext, List.range_succ_eq_map, List.map_cons, List.map_map, htop]
    refine congrArg (_ :: ·) (List.map_congr_left fun k _ => ?_)
    simp only [Function.comp, pop, Nat.add_sub_cancel, Nat.succ_eq_add_one]
    congr 2
    omega

/-- Pops move the stack pointer and change nothing else. -/
theorem snd_popMany (q : Processor) (n : Nat) :
    (q.popMany n).2 = { q with sp := (q.popMany n).2.sp } := by
  induction n generalizing q with
  | zero => rfl
  | succ n ih =>
    rw [popMany, ih q.pop.2]
    rfl

/-- Pushes move the stack pointer and change nothing else but the stack. -/
theorem pushAll_eq (p : Processor) (ws : List Word) :
    p.pushAll ws = { p with stack := (p.pushAll ws).stack, sp := (p.pushAll ws).sp } := by
  induction ws using List.reverseRecOn with
  | nil => rfl
  | append_singleton ws w ih =>
    rw [pushAll_concat, ih]
    rfl

/-- As many pops as pushes bring the stack pointer back, also where it wrapped. -/
theorem sp_popMany_pushAll (p : Processor) (ws : List Word) :
    ((p.pushAll ws).popMany ws.length).2.sp = p.sp := by
  have hpushed : ∀ ws : List Word, (p.pushAll ws).sp = p.sp + 4 * UInt32.ofNat ws.length := by
    intro ws
    induction ws using List.reverseRecOn with
    | nil => exact (UInt32.add_zero _).symm
    | append_singleton ws w ih =>
      have hlast : (p.pushAll (ws ++ [w])).sp = (p.pushAll ws).sp + 4 := by
        rw [pushAll_concat]
        rfl
      rw [hlast, ih, List.length_append, List.length_singleton, UInt32.ofNat_add, UInt32.mul_add,
        ← UInt32.add_assoc]
      rfl
  have hpopped : ∀ (n : Nat) (q : Processor), q.sp = p.sp + 4 * UInt32.ofNat n →
      (q.popMany n).2.sp = p.sp := by
    intro n
    induction n with
    | zero => exact fun q hq => hq.trans (UInt32.add_zero _)
    | succ n ih =>
      intro q hq
      refine ih q.pop.2 ?_
      rw [UInt32.ofNat_add, UInt32.mul_add, ← UInt32.add_assoc] at hq
      exact (congrArg (· - 4) hq).trans (UInt32.add_sub_cancel _ _)
  exact hpopped ws.length _ (hpushed ws)

/-! ## 3. Bytes -/

/-- The stack as the bytes of its buffer. -/
def buffer (p : Processor) : List UInt8 := p.stack.toList.flatMap Word.toList

/-- Where in the buffer a stack pointer points. -/
def place (sp : UInt32) : Nat := sp.toNat % stackBytes

theorem length_flatMap_toList (ws : List Word) :
    (ws.flatMap Word.toList).length = 4 * ws.length := by
  induction ws with
  | nil => rfl
  | cons w ws ih =>
    rw [List.flatMap_cons, List.length_append, Word.length_toList, ih, List.length_cons]
    omega

/-- The bytes of some words, cut between two of them. -/
theorem flatMap_toList_eq_append (ws : List Word) (hn : n ≤ ws.length) :
    ws.flatMap Word.toList = (ws.take n).flatMap Word.toList ++ (ws.drop n).flatMap Word.toList ∧
      ((ws.take n).flatMap Word.toList).length = 4 * n := by
  constructor
  · rw [← List.flatMap_append, List.take_append_drop]
  · rw [length_flatMap_toList, List.length_take_of_le hn]

theorem take_flatMap_toList (ws : List Word) (hn : n ≤ ws.length) :
    (ws.flatMap Word.toList).take (4 * n) = (ws.take n).flatMap Word.toList := by
  obtain ⟨hsplit, hfront⟩ := flatMap_toList_eq_append ws hn
  rw [hsplit]
  exact List.take_left' hfront

theorem drop_flatMap_toList (ws : List Word) (hn : n ≤ ws.length) :
    (ws.flatMap Word.toList).drop (4 * n) = (ws.drop n).flatMap Word.toList := by
  obtain ⟨hsplit, hfront⟩ := flatMap_toList_eq_append ws hn
  rw [hsplit]
  exact List.drop_left' hfront

theorem place_eq {sp : UInt32} (h : 4 ∣ sp.toNat) : place sp = 4 * slot sp := by
  simp only [place, stackBytes, slot, stackWords, Word.size]
  omega

/-- What a push and a pop do to the bytes of the buffer: a push replaces the four bytes at the stack
pointer, and a pop goes back by four bytes and reads the bytes there. -/
structure ActsOnBytes (p : Processor) : Prop where
  length : p.buffer.length = stackBytes
  push : ∀ w, (p.push w).buffer =
    p.buffer.take (place p.sp) ++ w.toList ++ p.buffer.drop (place p.sp + 4)
  pop : p.pop.1.toList = (p.pop.2.buffer.drop (place p.pop.2.sp)).take 4 ∧
    p.pop.2.buffer = p.buffer

/-- **Words lie at the stack pointer**, if it is a multiple of four. -/
theorem actsOnBytes_of_aligned (h : p.Aligned) : p.ActsOnBytes where
  length := by
    rw [buffer, length_flatMap_toList, Vector.length_toList]
    rfl
  push := by
    intro w
    have hslot : slot p.sp < p.stack.toList.length := by
      rw [Vector.length_toList]
      exact slot_lt p.sp
    rw [place_eq h, show 4 * slot p.sp + 4 = 4 * (slot p.sp + 1) by omega, buffer, buffer,
      take_flatMap_toList _ (Nat.le_of_lt hslot), drop_flatMap_toList _ hslot, Processor.push,
      Vector.toList_set,
      List.set_eq_take_append_cons_drop, if_pos hslot, List.flatMap_append, List.flatMap_cons,
      List.append_assoc]
  pop := by
    refine ⟨?_, rfl⟩
    have hslot : slot (p.sp - 4) < p.stack.toList.length := by
      rw [Vector.length_toList]
      exact slot_lt (p.sp - 4)
    have hplace : place p.pop.2.sp = 4 * slot (p.sp - 4) := place_eq (dvd_sub_four h)
    have hbuffer : p.pop.2.buffer = p.buffer := rfl
    rw [hplace, hbuffer, buffer, drop_flatMap_toList _ (Nat.le_of_lt hslot),
      List.drop_eq_getElem_cons hslot, List.flatMap_cons, List.take_append_of_le_length (by simp),
      List.take_of_length_le (by simp), Vector.getElem_toList]
    rfl

/-- **Every instruction leaves the stack pointer in front of a whole word**, on every bus. -/
theorem aligned_execute {β : Type} [Addressable β] (h : p.Aligned) (bus : β) (i : Instruction) :
    (p.execute bus i).1.Aligned := by
  have hpop : p.pop.2.Aligned := dvd_sub_four h
  have hpops : p.pop.2.pop.2.Aligned := dvd_sub_four hpop
  cases i with
  | halt => exact h
  | pushReg r => exact dvd_add_four h
  | pushInt v => exact dvd_add_four h
  | popReg r => exact hpop
  | add => exact dvd_add_four hpops
  | mul => exact dvd_add_four hpops
  | jumpIfLess d =>
    simp only [execute]
    split <;> exact hpops
  | read => exact dvd_add_four hpop
  | write => exact hpops
  | unknown op => exact h

/-- **So does every run** from power-on. -/
theorem aligned_after {β : Type} [Addressable β] (bus : β) (n : Nat) :
    (initial.after bus n).1.Aligned := by
  induction n with
  | zero => exact Nat.dvd_zero 4
  | succ n ih =>
    rw [after]
    generalize initial.after bus n = state at ih
    cases hhalted : state.1.halted with
    | true => rwa [cycle_of_halted hhalted]
    | false =>
      rw [cycle_of_running hhalted]
      have hcounted : Aligned { state.1 with cycles := state.1.cycles + 1 } := ih
      exact aligned_execute hcounted _ _

/-! ## 4. The whole -/

/-- What it comes to on a ring of 256 words to push some words and to pop as many. -/
structure Rings (p : Processor) (ws : List Word) : Prop where
  /-- the last word comes back first, and after each 256 pops the same words come again -/
  popped : ∀ k < ws.length,
    ((p.pushAll ws).popMany ws.length).1[k]? = ws[ws.length - 1 - k % 256]?
  count : ((p.pushAll ws).popMany ws.length).1.length = ws.length
  /-- so the last words come back last first, as many as the ring has slots -/
  lastFirst : ((p.pushAll ws).popMany ws.length).1.take 256 =
    (ws.drop (ws.length - 256)).reverse
  /-- as many slots are used, or all of them -/
  slots : (usedSlots p.sp ws.length).Nodup ∧
    (usedSlots p.sp ws.length).length = min ws.length 256
  /-- the slots used hold these last words, which took the places of all that were there before -/
  used : ∀ j (hj : j < ws.length), ws.length ≤ j + 256 →
    ((p.pushAll ws).popMany ws.length).2.stack[(slot p.sp + j) % 256] = ws[j]
  /-- all other slots hold what they held -/
  others : ∀ i (hi : i < 256), i ∉ usedSlots p.sp ws.length →
    ((p.pushAll ws).popMany ws.length).2.stack[i] = p.stack[i]
  /-- and apart from the stack everything is as it was, the stack pointer too -/
  rest : ((p.pushAll ws).popMany ws.length).2 =
    { p with stack := ((p.pushAll ws).popMany ws.length).2.stack }

theorem getElem?_popped (p : Processor) {k : Nat} (hk : k < ws.length) :
    ((p.pushAll ws).popMany ws.length).1[k]? = ws[ws.length - 1 - k % 256]? := by
  have hlast : ws.length - 1 - k % 256 < ws.length := by omega
  rw [fst_popMany (slot_pushAll p ws), List.getElem?_map, List.getElem?_range hk, Option.map_some,
    List.getElem?_eq_getElem hlast, Option.some.injEq]
  -- The pop reads the slot of a word that stands `k` places before the last one, and the word that
  -- was pushed last into this slot stands a multiple of 256 places behind that.
  have hslot : (slot p.sp + (ws.length - 1 - k)) % 256 =
      (slot p.sp + (ws.length - 1 - k % 256)) % 256 := by omega
  simp only [hslot]
  exact getElem_pushAll_of_mem p ws hlast (by omega) _

theorem rings (p : Processor) (ws : List Word) : p.Rings ws := by
  have hpops := snd_popMany (p.pushAll ws) ws.length
  have hstack : ((p.pushAll ws).popMany ws.length).2.stack = (p.pushAll ws).stack := by
    rw [hpops]
  have hcount : ((p.pushAll ws).popMany ws.length).1.length = ws.length := by
    rw [fst_popMany (slot_pushAll p ws), List.length_map, List.length_range]
  constructor
  case popped => exact fun k => getElem?_popped p
  case count => exact hcount
  case lastFirst =>
    refine List.ext_getElem? fun k => ?_
    rw [List.getElem?_take]
    by_cases hk : k < min 256 ws.length
    · rw [if_pos (by omega), getElem?_popped p (by omega),
        List.getElem?_reverse (by rw [List.length_drop]; omega), List.length_drop,
        List.getElem?_drop]
      congr 1
      omega
    · rw [List.getElem?_eq_none (l := List.reverse _) (by
        rw [List.length_reverse, List.length_drop]
        omega)]
      split
      · exact List.getElem?_eq_none (by rw [hcount]; omega)
      · rfl
  case slots => exact ⟨nodup_usedSlots _ _, length_usedSlots _ _⟩
  case used =>
    intro j hj hlast
    simp only [hstack]
    exact getElem_pushAll_of_mem p ws hj hlast _
  case others =>
    intro i hi hfree
    simp only [hstack]
    exact getElem_pushAll_of_not_mem p ws hi hfree
  case rest =>
    rw [hpops, sp_popMany_pushAll, pushAll_eq]

/-- **The stack is a ring of 256 words for every stack pointer** in front of a whole word, and on
every bus the stack pointer stands there however long the processor runs.  The words lie in a buffer
of 1024 bytes.  Words that are pushed and then popped come back last first, the last 256 of them and
then these again; the slots that they did not use, and everything else, are as before. -/
theorem stack_is_ring :
    (∀ {β : Type} [Addressable β] (bus : β) (n : Nat), (initial.after bus n).1.Aligned) ∧
      ∀ p : Processor, p.Aligned → p.ActsOnBytes ∧ ∀ ws : List Word, p.Rings ws :=
  ⟨aligned_after, fun p haligned => ⟨actsOnBytes_of_aligned haligned, rings p⟩⟩

/-- Two hundred and fifty-eight words on a stack from which one word too many was popped: the stack
pointer wraps at the first push, and the last two words take the slots of the first two. -/
theorem stack_is_ring_of_underflow :
    let p : Processor := initial.pop.2
    let ws := (List.range 258).map (fun n => Word.ofUInt32 (UInt32.ofNat n))
    p.Aligned ∧ p.sp = 0xfffffffc ∧
      let popped := (p.pushAll ws).popMany ws.length
      popped.1[0]? = some ⟨0, 0, 1, 1⟩ ∧ popped.1[255]? = some ⟨0, 0, 0, 2⟩ ∧
      popped.1[256]? = some ⟨0, 0, 1, 1⟩ ∧ popped.2.sp = 0xfffffffc := by
  intro p ws
  have haligned : p.Aligned := Nat.dvd_of_mod_eq_zero (by decide)
  have hlength : ws.length = 258 := by simp [ws]
  have hrings := (stack_is_ring.2 p haligned).2 ws
  refine ⟨haligned, by decide, ?_, ?_, ?_, congrArg Processor.sp hrings.rest⟩
  · rw [hrings.popped 0 (by omega), hlength]
    decide
  · rw [hrings.popped 255 (by omega), hlength]
    decide
  · rw [hrings.popped 256 (by omega), hlength]
    decide

end Ledboard.Processor
