/-
# The processor

A stack machine.  One cycle reads the instruction at `ip` from the bus, carries it out and moves
on; after a halt nothing happens any more.  There are no faults: a byte that is no opcode is
skipped, arithmetic wraps at 32 bits, and so do `ip` and `sp`.

The stack is a ring of 256 words.  `sp` counts bytes upward from zero and is never checked, so
the slot of a word is `sp / 4` modulo 256: a push beyond the ring's size takes the oldest slot,
and a pop from an empty stack reads slot 255.

An immediate is fetched on its own: the word at `ip` gives the opcode, and for a push of a number
the word at `ip + 1` gives all four bytes of it.

A cycle asks no more of the bus than that it answers reads and takes writes, so it is written for
anything that does (`Addressable`); the board runs it against its `Bus`.
-/
import Ledboard.Instruction
import Ledboard.Bus

namespace Ledboard

/-- What a processor shows of itself: counters, the first six registers and the stack from its
top down. -/
structure Snapshot where
  cycles : UInt64
  ip : UInt32
  sp : UInt32
  registers : List Int32
  stack : List Int32
  deriving DecidableEq

namespace Snapshot

/-- Signed numbers in brackets. -/
def numbers (ns : List Int32) : String :=
  "[" ++ ", ".intercalate (ns.map (fun n => Text.decimal n.toInt)) ++ "]"

/-- The written form of a snapshot. -/
def text (s : Snapshot) : String :=
  Text.decimal s.cycles.toNat ++ ": IP=" ++ Text.decimal s.ip.toNat
    ++ " SP=" ++ Text.decimal s.sp.toNat
    ++ " REGs=" ++ numbers s.registers ++ " STK=" ++ numbers s.stack

end Snapshot

/-- The state of the processor. -/
structure Processor where
  cycles : UInt64
  ip : UInt32
  sp : UInt32
  halted : Bool
  debugRequested : Bool
  registers : Vector Word 32
  stack : Vector Word 256
  deriving DecidableEq

namespace Processor

open Addressable

/-- How many words the stack holds. -/
def stackWords : Nat := 256

/-- How many registers a snapshot shows. -/
def shownRegisters : Nat := 6

/-- The state after power-on. -/
def initial : Processor where
  cycles := 0
  ip := 0
  sp := 0
  halted := false
  debugRequested := false
  registers := Vector.replicate 32 Word.zero
  stack := Vector.replicate 256 Word.zero

/-- A register, by the low five bits of its number. -/
def register (p : Processor) (n : UInt8) : Word :=
  p.registers.get ⟨n.toNat % 32, Nat.mod_lt _ (by decide)⟩

/-- Puts a word into a register. -/
def setRegister (p : Processor) (n : UInt8) (w : Word) : Processor :=
  { p with registers := p.registers.set (n.toNat % 32) w (Nat.mod_lt _ (by decide)) }

/-- The slot of the stack that belongs to a stack pointer. -/
def slot (sp : UInt32) : Nat := sp.toNat / Word.size % stackWords

theorem slot_lt (sp : UInt32) : slot sp < 256 := Nat.mod_lt _ (by decide)

/-- Pushes a word. -/
def push (p : Processor) (w : Word) : Processor :=
  { p with stack := p.stack.set (slot p.sp) w (slot_lt p.sp), sp := p.sp + 4 }

/-- Pops a word. -/
def pop (p : Processor) : Word × Processor :=
  (p.stack.get ⟨slot (p.sp - 4), slot_lt (p.sp - 4)⟩, { p with sp := p.sp - 4 })

/-- Pops `b`, pops `a` and pushes the combination of `a` and `b`. -/
def combine (p : Processor) (op : Int32 → Int32 → Int32) : Processor :=
  let (b, p) := p.pop
  let (a, p) := p.pop
  p.push (Word.ofInt32 (op a.toInt32 b.toInt32))

/-- The instruction at an address, read from the bus. -/
@[specialize] def fetch [Addressable β] (bus : β) (ip : UInt32) : Instruction × β :=
  let (word, bus) := readWord bus ip
  if word.b0 = 2 then
    let (immediate, bus) := readWord bus (ip + 1)
    (Instruction.decode (word.b0 :: immediate.toList), bus)
  else (Instruction.decode word.toList, bus)

/-- Moves `ip` behind an instruction. -/
def pass (p : Processor) (i : Instruction) : Processor :=
  { p with ip := p.ip + UInt32.ofNat i.width }

/-- The address of a jump's target. -/
def target (ip : UInt32) (displacement : Int16) : UInt32 := ip + displacement.toInt32.toUInt32

/-- Carries out an instruction that lies at `ip`. -/
@[specialize] def execute [Addressable β] (p : Processor) (bus : β) (i : Instruction) :
    Processor × β :=
  match i with
  | .halt => ({ p.pass i with halted := true }, bus)
  | .pushReg r => ((p.push (p.register r)).pass i, bus)
  | .pushInt v => ((p.push (Word.ofInt32 v)).pass i, bus)
  | .popReg r =>
    let (w, p) := p.pop
    ((p.setRegister r w).pass i, bus)
  | .add => ((p.combine (· + ·)).pass i, bus)
  | .mul => ((p.combine (· * ·)).pass i, bus)
  | .jumpIfLess d =>
    let (b, p) := p.pop
    let (a, p) := p.pop
    (if a.toInt32 < b.toInt32 then { p with ip := target p.ip d } else p.pass i, bus)
  | .read =>
    let (address, p) := p.pop
    let (w, bus) := readWord bus address.toUInt32
    ((p.push w).pass i, bus)
  | .write =>
    let (address, p) := p.pop
    let (w, p) := p.pop
    (p.pass i, writeWord bus address.toUInt32 w)
  | .unknown _ => (p.pass i, bus)

/-- One cycle: fetch, count, carry out.  A halted processor does nothing and names no
instruction. -/
@[specialize] def cycle [Addressable β] (p : Processor) (bus : β) :
    Option Instruction × Processor × β :=
  if p.halted then (none, p, bus)
  else
    let (i, bus) := fetch bus p.ip
    let (p, bus) := execute { p with cycles := p.cycles + 1 } bus i
    (some i, p, bus)

theorem cycle_of_halted [Addressable β] {p : Processor} (h : p.halted = true) (bus : β) :
    p.cycle bus = (none, p, bus) := if_pos h

theorem cycle_of_running [Addressable β] {p : Processor} (h : p.halted = false) (bus : β) :
    p.cycle bus = (some (fetch bus p.ip).1,
      execute { p with cycles := p.cycles + 1 } (fetch bus p.ip).2 (fetch bus p.ip).1) := by
  simp [cycle, h]

/-- How many words a snapshot shows of the stack. -/
def shownWords (sp : UInt32) : Nat := min sp.toNat (stackWords * Word.size) / Word.size

/-- The present state, as shown. -/
def snapshot (p : Processor) : Snapshot where
  cycles := p.cycles
  ip := p.ip
  sp := p.sp
  registers := (p.registers.toList.take shownRegisters).map Word.toInt32
  stack := ((p.stack.toList.take (shownWords p.sp)).map Word.toInt32).reverse

/-- Asks for one snapshot. -/
def requestDebug (p : Processor) : Processor := { p with debugRequested := true }

/-- The snapshot that was asked for, if any, and the processor without the request. -/
def takeDebug (p : Processor) : Option Snapshot × Processor :=
  if p.debugRequested then (some p.snapshot, { p with debugRequested := false }) else (none, p)

/-- The short form of a processor. -/
def describe (p : Processor) : String :=
  "Processor \x7b cycles: " ++ Text.decimal p.cycles.toNat
    ++ ", ip: " ++ Text.decimal p.ip.toNat
    ++ ", sp: " ++ Text.decimal p.sp.toNat
    ++ ", halted: " ++ (if p.halted then "true" else "false") ++ ", .. \x7d"

end Processor

end Ledboard
