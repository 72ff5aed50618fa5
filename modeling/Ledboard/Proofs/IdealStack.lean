/-
# The stack is a stack

The processor keeps its stack in a ring of 256 words behind a byte counter that nothing checks.
This module compares it with an *ideal* processor: the same registers, `ip`, cycle counter and
halt flag, but a list of words for a stack, which has no size and from which a missing word
cannot be popped (`IdealProcessor.execute?` then has no result).

**As long as the ideal stack neither runs short nor grows past 256 words, the two cannot be told
apart** (`looks_like_ideal_stack`): they agree on everything they share after every cycle, send
the same transactions over the bus in the same order, the counter is four times the depth, and a
snapshot lists the ideal stack from its top down.

The relation that carries this is `Agrees`: the first slots of the ring, as many as the stack is
deep, hold the ideal stack bottom first.  What lies in the slots above is left over from earlier
pops, and nothing is said about it.
-/
import Ledboard.Proofs.Traffic

namespace Ledboard

open Addressable

variable {β : Type} [Addressable β]

/-! ## 1. The ideal processor -/

/-- A processor with a list for a stack, top first. -/
structure IdealProcessor where
  cycles : UInt64
  ip : UInt32
  halted : Bool
  registers : Vector Word 32
  stack : List Word
  deriving DecidableEq

namespace IdealProcessor

/-- The state after power-on. -/
def initial : IdealProcessor where
  cycles := 0
  ip := 0
  halted := false
  registers := Vector.replicate 32 Word.zero
  stack := []

theorem registerIndex_lt (n : UInt8) : n.toNat % 32 < 32 := Nat.mod_lt _ (by decide)

/-- A register, by the low five bits of its number. -/
def register (s : IdealProcessor) (n : UInt8) : Word :=
  s.registers.get ⟨n.toNat % 32, registerIndex_lt n⟩

/-- The state with another stack. -/
def withStack (s : IdealProcessor) (stack : List Word) : IdealProcessor := { s with stack := stack }

/-- Moves `ip` behind an instruction. -/
def pass (s : IdealProcessor) (i : Instruction) : IdealProcessor :=
  { s with ip := s.ip + UInt32.ofNat i.width }

/-- Carries out an instruction that lies at `ip`.  There is no result where the stack does not
hold the words that the instruction pops. -/
def execute? (s : IdealProcessor) (bus : β) (i : Instruction) : Option (IdealProcessor × β) :=
  match i with
  | .halt => some ({ s.pass i with halted := true }, bus)
  | .pushReg r => some ((s.withStack (s.register r :: s.stack)).pass i, bus)
  | .pushInt v => some ((s.withStack (Word.ofInt32 v :: s.stack)).pass i, bus)
  | .popReg r =>
    match s.stack with
    | w :: rest =>
      let registers := s.registers.set (r.toNat % 32) w (registerIndex_lt r)
      some ({ (s.withStack rest).pass i with registers := registers }, bus)
    | _ => none
  | .add =>
    match s.stack with
    | b :: a :: rest =>
      some ((s.withStack (Word.ofInt32 (a.toInt32 + b.toInt32) :: rest)).pass i, bus)
    | _ => none
  | .mul =>
    match s.stack with
    | b :: a :: rest =>
      some ((s.withStack (Word.ofInt32 (a.toInt32 * b.toInt32) :: rest)).pass i, bus)
    | _ => none
  | .jumpIfLess d =>
    match s.stack with
    | b :: a :: rest =>
      some (if a.toInt32 < b.toInt32 then { s.withStack rest with ip := Processor.target s.ip d }
        else (s.withStack rest).pass i, bus)
    | _ => none
  | .read =>
    match s.stack with
    | address :: rest =>
      let (w, bus) := readWord bus address.toUInt32
      some ((s.withStack (w :: rest)).pass i, bus)
    | _ => none
  | .write =>
    match s.stack with
    | address :: w :: rest =>
      some ((s.withStack rest).pass i, writeWord bus address.toUInt32 w)
    | _ => none
  | .unknown _ => some (s.pass i, bus)

/-- One cycle. -/
def cycle? (s : IdealProcessor) (bus : β) : Option (IdealProcessor × β) :=
  if s.halted then some (s, bus)
  else
    let (i, bus) := Processor.fetch bus s.ip
    execute? { s with cycles := s.cycles + 1 } bus i

theorem cycle?_of_running {s : IdealProcessor} (h : s.halted = false) (bus : β) :
    s.cycle? bus = execute? { s with cycles := s.cycles + 1 } (Processor.fetch bus s.ip).2
      (Processor.fetch bus s.ip).1 := by
  simp [cycle?, h]

/-- The state and its bus after a number of cycles. -/
def after? (s : IdealProcessor) (bus : β) : Nat → Option (IdealProcessor × β)
  | 0 => some (s, bus)
  | n + 1 => (s.after? bus n).bind (fun (s, bus) => s.cycle? bus)

end IdealProcessor

/-! ## 2. Agreement, and what one push and one pop do to it -/

/-- What a processor and an ideal one have in common while the ring is large enough. -/
structure Agrees (p : Processor) (s : IdealProcessor) : Prop where
  cycles : p.cycles = s.cycles
  ip : p.ip = s.ip
  halted : p.halted = s.halted
  registers : p.registers = s.registers
  sp : p.sp.toNat = 4 * s.stack.length
  stack : p.stack.toList.take s.stack.length = s.stack.reverse

namespace Processor

variable {p : Processor} {s : IdealProcessor}

theorem agrees_initial : Agrees initial IdealProcessor.initial :=
  ⟨rfl, rfl, rfl, rfl, rfl, rfl⟩

/-- The slot of a counter that counts whole words of a ring that is not full. -/
theorem slot_of_sp {sp : UInt32} {depth : Nat} (h : sp.toNat = 4 * depth) (hd : depth < 256) :
    slot sp = depth := by
  unfold slot Word.size stackWords
  rw [h, Nat.mul_div_cancel_left depth (by decide), Nat.mod_eq_of_lt hd]

theorem register_of_agrees (h : Agrees p s) (r : UInt8) : p.register r = s.register r := by
  unfold register IdealProcessor.register
  rw [h.registers]

/-- **A push** on both sides keeps the agreement, if there is room in the ring. -/
theorem agrees_push (h : Agrees p s) (w : Word) (hroom : s.stack.length < 256) :
    Agrees (p.push w) (s.withStack (w :: s.stack)) where
  cycles := h.cycles
  ip := h.ip
  halted := h.halted
  registers := h.registers
  sp := by
    have hsp := h.sp
    simp only [push, IdealProcessor.withStack, List.length_cons, UInt32.toNat_add]
    have h4 : (4 : UInt32).toNat = 4 := rfl
    omega
  stack := by
    have hslot : slot p.sp = s.stack.length := slot_of_sp h.sp hroom
    have hlen : s.stack.length < p.stack.toList.length := by simpa using hroom
    simp only [push, IdealProcessor.withStack, List.length_cons, List.reverse_cons, hslot,
      Vector.toList_set]
    rw [List.take_succ_eq_append_getElem (by simpa using hlen), List.take_set_of_le (Nat.le_refl _),
      h.stack, List.getElem_set_self]

/-- **A pop** gives the top of the ideal stack and keeps the agreement. -/
theorem agrees_pop {w : Word} {rest : List Word} (h : Agrees p s) (hs : s.stack = w :: rest)
    (hroom : s.stack.length ≤ 256) : p.pop.1 = w ∧ Agrees p.pop.2 (s.withStack rest) := by
  have hsp := h.sp
  have hstack := h.stack
  rw [hs, List.length_cons] at hsp hroom
  rw [hs, List.length_cons, List.reverse_cons] at hstack
  have hnew : (p.sp - 4).toNat = 4 * rest.length := by
    have h4 : (4 : UInt32).toNat = 4 := rfl
    have hle : (4 : UInt32) ≤ p.sp := by
      rw [UInt32.le_iff_toNat_le]
      omega
    rw [UInt32.toNat_sub_of_le _ _ hle]
    omega
  have hslot : slot (p.sp - 4) = rest.length := slot_of_sp hnew (by omega)
  have hlen : rest.length < p.stack.toList.length := by
    simp only [Vector.length_toList]
    omega
  rw [List.take_succ_eq_append_getElem hlen] at hstack
  have hsplit := List.append_inj hstack
    (by simp only [List.length_take, List.length_reverse]; omega)
  constructor
  · have htop : p.stack.toList[rest.length] = w := by simpa using hsplit.2
    simp only [pop, Vector.get, hslot]
    simpa using htop
  · exact ⟨h.cycles, h.ip, h.halted, h.registers, hnew, hsplit.1⟩

theorem agrees_pass (h : Agrees p s) (i : Instruction) : Agrees (p.pass i) (s.pass i) where
  cycles := h.cycles
  ip := by
    unfold pass IdealProcessor.pass
    rw [h.ip]
  halted := h.halted
  registers := h.registers
  sp := h.sp
  stack := h.stack

/-- Two pops in a row: `b` is on top, `a` below it. -/
theorem agrees_pop_pop {a b : Word} {rest : List Word} (h : Agrees p s)
    (hs : s.stack = b :: a :: rest) (hroom : s.stack.length ≤ 256) :
    p.pop.1 = b ∧ p.pop.2.pop.1 = a ∧ Agrees p.pop.2.pop.2 (s.withStack rest) := by
  obtain ⟨hb, hagrees⟩ := agrees_pop h hs hroom
  rw [hs, List.length_cons] at hroom
  obtain ⟨ha, hagrees'⟩ := agrees_pop hagrees rfl (Nat.le_of_succ_le hroom)
  exact ⟨hb, ha, hagrees'⟩

/-- What the two arithmetic instructions do. -/
theorem agrees_combine {a b : Word} {rest : List Word} (h : Agrees p s)
    (hs : s.stack = b :: a :: rest) (hroom : s.stack.length ≤ 256)
    (op : Int32 → Int32 → Int32) :
    Agrees (p.combine op) (s.withStack (Word.ofInt32 (op a.toInt32 b.toInt32) :: rest)) := by
  obtain ⟨hb, ha, hagrees⟩ := agrees_pop_pop h hs hroom
  rw [hs, List.length_cons, List.length_cons] at hroom
  have hpush := agrees_push hagrees (Word.ofInt32 (op a.toInt32 b.toInt32))
    (by simp only [IdealProcessor.withStack]; omega)
  simp only [combine, hb, ha]
  exact hpush

/-! ## 3. The step and the run -/

/-- **One instruction.**  Where the ideal processor has a result and its stack stays within the
ring, the processor comes to the same result on the same bus. -/
theorem agrees_execute {bus bus' : β} {s' : IdealProcessor} (h : Agrees p s)
    (hroom : s.stack.length ≤ 256) (i : Instruction) (hi : s.execute? bus i = some (s', bus'))
    (hroom' : s'.stack.length ≤ 256) :
    Agrees (p.execute bus i).1 s' ∧ (p.execute bus i).2 = bus' := by
  cases i with
  | halt =>
    simp only [IdealProcessor.execute?, Option.some.injEq, Prod.mk.injEq] at hi
    obtain ⟨rfl, rfl⟩ := hi
    have hpass := agrees_pass h .halt
    exact ⟨⟨hpass.cycles, hpass.ip, rfl, hpass.registers, hpass.sp, hpass.stack⟩, rfl⟩
  | pushReg r =>
    simp only [IdealProcessor.execute?, Option.some.injEq, Prod.mk.injEq] at hi
    obtain ⟨rfl, rfl⟩ := hi
    refine ⟨agrees_pass ?_ _, rfl⟩
    rw [register_of_agrees h]
    exact agrees_push h _ hroom'
  | pushInt v =>
    simp only [IdealProcessor.execute?, Option.some.injEq, Prod.mk.injEq] at hi
    obtain ⟨rfl, rfl⟩ := hi
    exact ⟨agrees_pass (agrees_push h _ hroom') _, rfl⟩
  | popReg r =>
    rcases hs : s.stack with _ | ⟨w, rest⟩
    · simp [IdealProcessor.execute?, hs] at hi
    · obtain ⟨hw, hagrees⟩ := agrees_pop h hs hroom
      simp only [IdealProcessor.execute?, hs, Option.some.injEq, Prod.mk.injEq] at hi
      obtain ⟨rfl, rfl⟩ := hi
      have hpass := agrees_pass hagrees (.popReg r)
      refine ⟨⟨hpass.cycles, hpass.ip, hpass.halted, ?_, hpass.sp, hpass.stack⟩, rfl⟩
      have hregs : p.pop.2.registers = s.registers := hagrees.registers
      simp only [execute, setRegister, pass, hw, hregs]
  | add =>
    rcases hs : s.stack with _ | ⟨b, _ | ⟨a, rest⟩⟩
    · simp [IdealProcessor.execute?, hs] at hi
    · simp [IdealProcessor.execute?, hs] at hi
    · simp only [IdealProcessor.execute?, hs, Option.some.injEq, Prod.mk.injEq] at hi
      obtain ⟨rfl, rfl⟩ := hi
      exact ⟨agrees_pass (agrees_combine h hs hroom (· + ·)) _, rfl⟩
  | mul =>
    rcases hs : s.stack with _ | ⟨b, _ | ⟨a, rest⟩⟩
    · simp [IdealProcessor.execute?, hs] at hi
    · simp [IdealProcessor.execute?, hs] at hi
    · simp only [IdealProcessor.execute?, hs, Option.some.injEq, Prod.mk.injEq] at hi
      obtain ⟨rfl, rfl⟩ := hi
      exact ⟨agrees_pass (agrees_combine h hs hroom (· * ·)) _, rfl⟩
  | jumpIfLess d =>
    rcases hs : s.stack with _ | ⟨b, _ | ⟨a, rest⟩⟩
    · simp [IdealProcessor.execute?, hs] at hi
    · simp [IdealProcessor.execute?, hs] at hi
    · obtain ⟨hb, ha, hagrees⟩ := agrees_pop_pop h hs hroom
      simp only [IdealProcessor.execute?, hs, Option.some.injEq, Prod.mk.injEq] at hi
      obtain ⟨rfl, rfl⟩ := hi
      refine ⟨?_, rfl⟩
      simp only [execute, hb, ha]
      split
      · refine ⟨hagrees.cycles, ?_, hagrees.halted, hagrees.registers, hagrees.sp, hagrees.stack⟩
        exact congrArg (target · d) hagrees.ip
      · exact agrees_pass hagrees _
  | read =>
    rcases hs : s.stack with _ | ⟨address, rest⟩
    · simp [IdealProcessor.execute?, hs] at hi
    · obtain ⟨haddress, hagrees⟩ := agrees_pop h hs hroom
      simp only [IdealProcessor.execute?, hs, Option.some.injEq, Prod.mk.injEq] at hi
      obtain ⟨rfl, rfl⟩ := hi
      simp only [execute, haddress]
      exact ⟨agrees_pass (agrees_push hagrees _ hroom') _, trivial⟩
  | write =>
    rcases hs : s.stack with _ | ⟨address, _ | ⟨w, rest⟩⟩
    · simp [IdealProcessor.execute?, hs] at hi
    · simp [IdealProcessor.execute?, hs] at hi
    · obtain ⟨haddress, hw, hagrees⟩ := agrees_pop_pop h hs hroom
      simp only [IdealProcessor.execute?, hs, Option.some.injEq, Prod.mk.injEq] at hi
      obtain ⟨rfl, rfl⟩ := hi
      simp only [execute, haddress, hw]
      exact ⟨agrees_pass hagrees _, trivial⟩
  | unknown op =>
    simp only [IdealProcessor.execute?, Option.some.injEq, Prod.mk.injEq] at hi
    obtain ⟨rfl, rfl⟩ := hi
    exact ⟨agrees_pass h _, rfl⟩

/-- **One cycle.** -/
theorem agrees_cycle {bus bus' : β} {s' : IdealProcessor} (h : Agrees p s)
    (hroom : s.stack.length ≤ 256) (hs : s.cycle? bus = some (s', bus'))
    (hroom' : s'.stack.length ≤ 256) :
    Agrees (p.cycle bus).2.1 s' ∧ (p.cycle bus).2.2 = bus' := by
  have hhalted := h.halted
  cases hh : s.halted with
  | true =>
    rw [IdealProcessor.cycle?, if_pos hh, Option.some.injEq, Prod.mk.injEq] at hs
    obtain ⟨rfl, rfl⟩ := hs
    rw [cycle_of_halted (hhalted.trans hh)]
    exact ⟨h, rfl⟩
  | false =>
    have hfetch : fetch bus p.ip = fetch bus s.ip := congrArg (fetch bus) h.ip
    rw [IdealProcessor.cycle?_of_running hh] at hs
    rw [cycle_of_running (hhalted.trans hh), hfetch]
    have hticked : Agrees { p with cycles := p.cycles + 1 } { s with cycles := s.cycles + 1 } :=
      ⟨congrArg (· + 1) h.cycles, h.ip, h.halted, h.registers, h.sp, h.stack⟩
    exact agrees_execute hticked hroom _ hs hroom'

/-- The ideal processor comes through a number of cycles, from power-on, with never more than 256
words on its stack. -/
def IdealStackFits (bus : β) (n : Nat) : Prop :=
  ∀ k ≤ n, ∃ s ∈ IdealProcessor.initial.after? bus k, s.1.stack.length ≤ 256

/-- **A run.** -/
theorem agrees_after {bus : β} {n : Nat} (h : IdealStackFits bus n) :
    ∃ s, IdealProcessor.initial.after? bus n = some (s, (initial.after bus n).2) ∧
      s.stack.length ≤ 256 ∧ Agrees (initial.after bus n).1 s := by
  induction n with
  | zero => exact ⟨_, rfl, Nat.zero_le _, agrees_initial⟩
  | succ n ih =>
    obtain ⟨s, hs, hroom, hagrees⟩ := ih (fun k hk => h k (Nat.le_succ_of_le hk))
    obtain ⟨⟨s', bus'⟩, hs', hroom'⟩ := h (n + 1) (Nat.le_refl _)
    rw [IdealProcessor.after?, hs, Option.bind_some, Option.mem_def] at hs'
    obtain ⟨hagrees', hbus⟩ := agrees_cycle hagrees hroom hs' hroom'
    refine ⟨s', ?_, hroom', hagrees'⟩
    rw [IdealProcessor.after?, hs, Option.bind_some, hs']
    exact congrArg (fun b => some (s', b)) hbus.symm

/-! ## 4. The whole -/

/-- What can be seen of a processor is what an ideal one says: all that they share, a counter of
four bytes for each word, and the stack that a snapshot lists. -/
structure LooksLike (p : Processor) (s : IdealProcessor) : Prop where
  cycles : p.cycles = s.cycles
  ip : p.ip = s.ip
  halted : p.halted = s.halted
  registers : p.registers = s.registers
  sp : p.sp.toNat = 4 * s.stack.length
  shown : p.snapshot.stack = s.stack.map Word.toInt32

theorem looksLike_of_agrees (h : Agrees p s) (hroom : s.stack.length ≤ 256) : LooksLike p s := by
  have hshown : shownWords p.sp = s.stack.length := by
    unfold shownWords stackWords Word.size
    rw [h.sp]
    omega
  refine ⟨h.cycles, h.ip, h.halted, h.registers, h.sp, ?_⟩
  simp only [snapshot, hshown, h.stack, List.map_reverse, List.reverse_reverse]

/-- **The processor is an ideal stack machine** on every bus and over runs of every length, as
long as the ideal stack fits.  The transactions are compared through a recorder, which disturbs
neither side. -/
theorem looks_like_ideal_stack (bus : β) (n : Nat) (h : IdealStackFits (Recorded.start bus) n) :
    ∃ s r, IdealProcessor.initial.after? (Recorded.start bus) n = some (s, r) ∧
      (initial.after (Recorded.start bus) n).2.log = r.log ∧
      (initial.after bus n).2 = r.bus ∧
      LooksLike (initial.after bus n).1 s := by
  obtain ⟨s, hs, hroom, hagrees⟩ := agrees_after h
  obtain ⟨hp, hbus⟩ := after_recorded initial (Recorded.start bus) n
  rw [hp] at hagrees
  exact ⟨s, _, hs, rfl, hbus.symm, looksLike_of_agrees hagrees hroom⟩

/-- A program that pushes 7 and an address and writes the one to the other, then moves 9 to a register
and pushes it again. -/
theorem looks_like_ideal_stack_of_write :
    let bus := (Bus.empty #[]).connect (.ram ((Ram.ofSize 64).load 0
      [2, 0, 0, 0, 7, 2, 0, 0, 0, 40, 8, 2, 0, 0, 0, 9, 3, 1, 1, 1])) 0 63
    IdealStackFits (Recorded.start bus) 6 ∧
    ∃ s r, IdealProcessor.initial.after? (Recorded.start bus) 6 = some (s, r) ∧
      (initial.after (Recorded.start bus) 6).2.log = r.log ∧
      (initial.after bus 6).2 = r.bus ∧
      LooksLike (initial.after bus 6).1 s ∧
      s.ip = 20 ∧ s.stack = [⟨0, 0, 0, 9⟩] ∧ s.register 1 = ⟨0, 0, 0, 9⟩ ∧
      r.log = [.read 0 ⟨2, 0, 0, 0⟩, .read 1 ⟨0, 0, 0, 7⟩, .read 5 ⟨2, 0, 0, 0⟩,
        .read 6 ⟨0, 0, 0, 40⟩, .read 10 ⟨8, 2, 0, 0⟩, .write 40 ⟨0, 0, 0, 7⟩,
        .read 11 ⟨2, 0, 0, 0⟩, .read 12 ⟨0, 0, 0, 9⟩, .read 16 ⟨3, 1, 1, 1⟩,
        .read 18 ⟨1, 1, 0, 0⟩] := by
  intro bus
  have hfits : IdealStackFits (Recorded.start bus) 6 := by
    intro k hk
    match k, hk with
    | 0, _ | 1, _ | 2, _ | 3, _ | 4, _ | 5, _ | 6, _ => decide +kernel
  have hend : (IdealProcessor.initial.after? (Recorded.start bus) 6).map (fun last =>
      (last.1.ip, last.1.stack, last.1.register 1, last.2.log)) =
      some (20, [⟨0, 0, 0, 9⟩], ⟨0, 0, 0, 9⟩,
        [.read 0 ⟨2, 0, 0, 0⟩, .read 1 ⟨0, 0, 0, 7⟩, .read 5 ⟨2, 0, 0, 0⟩,
          .read 6 ⟨0, 0, 0, 40⟩, .read 10 ⟨8, 2, 0, 0⟩, .write 40 ⟨0, 0, 0, 7⟩,
          .read 11 ⟨2, 0, 0, 0⟩, .read 12 ⟨0, 0, 0, 9⟩, .read 16 ⟨3, 1, 1, 1⟩,
          .read 18 ⟨1, 1, 0, 0⟩]) := by
    decide +kernel
  obtain ⟨s, r, hrun, hlog, hbus, hlooks⟩ := looks_like_ideal_stack bus 6 hfits
  rw [hrun] at hend
  simp only [Option.map_some, Option.some.injEq, Prod.mk.injEq] at hend
  exact ⟨hfits, s, r, hrun, hlog, hbus, hlooks, hend⟩

end Processor

end Ledboard
