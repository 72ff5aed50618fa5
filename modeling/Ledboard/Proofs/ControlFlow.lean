/-
# Control flow of assembled programs

A program that was assembled and loaded into a new machine is carried out instruction by
instruction, as its rows list them.  Control is always where a row begins or at the end of the
program, where a halt lies; no jump ever leads into the middle of an instruction or beyond the
end.  The one assumption is that the program does not write over itself.

The invariant of a run is `OnCourse`: RAM still begins with the program, and control is at a
boundary unless the processor is halted.

* What the next instruction is at a boundary is read off the rows (`cycle_of_boundary`).
* Where it leads is the place behind its row or the target of a jump, and both are boundaries
  again because the rows tile the program (`boundary_of_cycle`).
* So a step keeps the invariant (`onCourse_step`), loading establishes it (`onCourse_load`), and a
  run keeps it (`onCourse_after`).
-/
import Ledboard.Proofs.Assembly.Tiling
import Ledboard.Proofs.ProgramInRam

namespace Ledboard

open Assembly

/-! ## 1. Where an instruction leads -/

namespace Processor

open Addressable

/-- An instruction leads behind itself or, if it is a jump, to its target. -/
theorem ip_execute [Addressable β] (p : Processor) (bus : β) (i : Instruction) :
    (p.execute bus i).1.ip = p.ip + UInt32.ofNat i.width ∨
      ∃ d, i = .jumpIfLess d ∧ (p.execute bus i).1.ip = target p.ip d := by
  cases i with
  | jumpIfLess d =>
    simp only [execute]
    split
    · exact Or.inr ⟨d, rfl, rfl⟩
    · exact Or.inl rfl
  | _ => exact Or.inl rfl

theorem toNat_next {ip : UInt32} {width offset : Nat} (h : ip.toNat + width = offset)
    (hoffset : offset < UInt32.size) : (ip + UInt32.ofNat width).toNat = offset := by
  have hwidth : (UInt32.ofNat width).toNat = width := by
    rw [UInt32.toNat_ofNat']
    exact Nat.mod_eq_of_lt (Nat.lt_of_le_of_lt (by omega) hoffset)
  rw [UInt32.toNat_add, hwidth, h]
  exact Nat.mod_eq_of_lt hoffset

/-- A jump that adds up to an address leads there, forward or backward. -/
theorem toNat_target {ip : UInt32} {d : Int16} {offset : Nat}
    (h : (ip.toNat : Int) + d.toInt = offset) (hoffset : offset < UInt32.size) :
    (target ip d).toNat = offset := by
  have hd : d.toInt32.toInt = d.toInt := Int16.toInt_toInt32 d
  have hsign : d.toInt32.toInt = if 2 * d.toInt32.toUInt32.toNat < UInt32.size
      then (d.toInt32.toUInt32.toNat : Int) else d.toInt32.toUInt32.toNat - UInt32.size :=
    BitVec.toInt_eq_toNat_cond _
  have hip := ip.toNat_lt
  rw [target, UInt32.toNat_add]
  simp only [UInt32.size] at *
  split at hsign <;> omega

end Processor

/-! ## 2. One cycle of a program -/

/-- The instruction of a program that starts at an offset: that of the row there, whose code lies
there in the bytes, or a halt at the end. -/
inductive Assembly.Program.At (p : Program) (offset : Nat) : Instruction → Prop where
  | row {row : Row} (hrow : row ∈ p.rows) (hoffset : row.offset = offset)
      (hcode : row.instruction.encode <+: p.bytes.drop offset) : At p offset row.instruction
  | ending (hoffset : offset = p.bytes.length) : At p offset .halt

section

variable {p : Program} {cpu : Processor} {bus : Bus}

/-- The code of a program in RAM: its bytes and the zero behind them, which is a halt. -/
def Assembly.Program.code (p : Program) : List UInt8 := p.bytes ++ [0]

theorem length_lt_of_begins (hbus : bus.Begins p.code) : p.bytes.length < UInt32.size := by
  obtain ⟨last, -, -, -, hlast, -⟩ := hbus
  have htop := last.toNat_lt
  rw [Program.code, List.length_append, List.length_singleton] at hlast
  simp only [UInt32.size]
  omega

theorem boundary_le_length (hp : Tiled p) {offset : Nat} (h : p.Boundary offset) :
    offset ≤ p.bytes.length := by
  rcases h with rfl | ⟨row, hrow, rfl⟩
  · exact Nat.le_refl _
  · obtain ⟨front, back, hbytes, hoffset⟩ := hp.code row hrow
    rw [hbytes, List.length_append, List.length_append, hoffset]
    omega

/-- **At a boundary the next instruction is the one that starts there.** -/
theorem at_of_boundary (hp : Tiled p) (hbus : bus.Begins p.code)
    (hip : p.Boundary cpu.ip.toNat) : p.At cpu.ip.toNat (Processor.fetch bus cpu.ip).1 := by
  rcases hip with hend | ⟨row, hrow, hoffset⟩
  · have hcanonical : Instruction.halt.Canonical := trivial
    have hcode : p.code = p.bytes ++ (Instruction.halt.encode ++ []) := rfl
    have hhalt : (Processor.fetch bus cpu.ip).1 = .halt :=
      Processor.fetch_of_begins hbus hcanonical hcode hend
    rw [hhalt]
    exact .ending hend
  · obtain ⟨front, back, hbytes, hfront⟩ := hp.code row hrow
    have hcode : p.code = front ++ (row.instruction.encode ++ (back ++ [0])) := by
      rw [Program.code, hbytes, List.append_assoc, List.append_assoc]
    have hrow' : (Processor.fetch bus cpu.ip).1 = row.instruction :=
      Processor.fetch_of_begins hbus (hp.canonical row hrow) hcode (by rw [hfront, hoffset])
    rw [hrow']
    refine .row hrow hoffset ?_
    rw [hbytes, List.append_assoc, ← hoffset, ← hfront, List.drop_left]
    exact List.prefix_append _ _

/-- **From a boundary control goes to a boundary**, unless the processor halts. -/
theorem boundary_of_execute (hp : Tiled p) (hsize : p.bytes.length < UInt32.size)
    {i : Instruction} (hi : p.At cpu.ip.toNat i) (hrun : (cpu.execute bus i).1.halted = false) :
    p.Boundary (cpu.execute bus i).1.ip.toNat := by
  have hreach : ∀ offset, p.Boundary offset → offset < UInt32.size :=
    fun offset h => Nat.lt_of_le_of_lt (boundary_le_length hp h) hsize
  cases hi with
  | ending => exact absurd hrun (by simp [Processor.execute])
  | @row row hrow hoffset =>
    rcases Processor.ip_execute cpu bus row.instruction with hnext | ⟨d, hd, htarget⟩
    · have hboundary := hp.next row hrow
      rw [hnext, Processor.toNat_next (by rw [hoffset]) (hreach _ hboundary)]
      exact hboundary
    · obtain ⟨offset, hsum, hboundary⟩ := hp.jump row hrow d hd
      rw [htarget, Processor.toNat_target (by rw [← hoffset]; exact hsum) (hreach _ hboundary)]
      exact hboundary

end

/-! ## 3. Runs -/

namespace Machine

/-- What holds of a machine while it carries a program out that does not write over itself. -/
structure OnCourse (p : Program) (m : Machine) : Prop where
  /-- RAM begins with the program -/
  code : m.bus.Begins p.code
  /-- and control is between two instructions. -/
  control : m.processor.halted = false → p.Boundary m.processor.ip.toNat

variable {p : Program} {m : Machine}

/-- What a machine on course carries out next. -/
theorem at_of_onCourse (hp : Tiled p) (h : OnCourse p m) (hrun : m.processor.halted = false) :
    ∃ i, m.step.1 = some i ∧ p.At m.processor.ip.toNat i := by
  refine ⟨_, ?_, at_of_boundary hp h.code (h.control hrun)⟩
  simp only [step, Processor.cycle_of_running hrun]

/-- **A step keeps a machine on course** if it writes behind the program only. -/
theorem onCourse_step (hp : Tiled p) (h : OnCourse p m)
    (hwrite : ∀ a w, .write a w ∈ m.traffic → p.bytes.length < a.toNat) :
    OnCourse p m.step.2 := by
  constructor
  · refine Processor.begins_cycle h.code ?_
    intro a w hmem
    have hbehind := hwrite a w hmem
    rw [Program.code, List.length_append, List.length_singleton]
    omega
  · cases hhalt : m.processor.halted with
    | true =>
      intro hrun
      simp only [step, Processor.cycle_of_halted hhalt] at hrun
      exact absurd hrun (by simp [hhalt])
    | false =>
      simp only [step, Processor.cycle_of_running hhalt]
      exact boundary_of_execute hp (length_lt_of_begins h.code)
        (at_of_boundary hp h.code (h.control hhalt))

/-- A program that was just loaded is on course. -/
theorem onCourse_load (hp : Tiled p) {map : AddressMap} (display : Display) (noise : Noise)
    (hroom : p.bytes.length < map.ramSize) (hsize : map.ramSize < UInt32.size) :
    OnCourse p ((create map display noise).load p.bytes).2 :=
  ⟨begins_load display noise hroom hsize, fun _ => hp.start⟩

/-- **A run stays on course** while it writes behind the program only. -/
theorem onCourse_after (hp : Tiled p) (h : OnCourse p m) {n : Nat}
    (hwrite : ∀ k < n, ∀ a w, .write a w ∈ (m.after k).traffic → p.bytes.length < a.toNat) :
    OnCourse p (m.after n) := by
  induction n with
  | zero => exact h
  | succ n ih =>
    have hbefore := ih (fun k hk => hwrite k (Nat.lt_succ_of_lt hk))
    exact onCourse_step hp hbefore (hwrite n (Nat.lt_succ_self n))

/-- **Control of an assembled program stays on its rows.**  However many steps a new machine has
made with the program, if it has not written over the program and is not halted, it carries out
next the instruction of a row, at the offset of the row, or a halt at the end of the program. -/
theorem control_stays_on_rows {source : String} (hassemble : assemble source = .ok p)
    {map : AddressMap} (display : Display) (noise : Noise)
    (hroom : p.bytes.length < map.ramSize) (hsize : map.ramSize ≤ 4294967295) {n : Nat}
    (hwrite : ∀ k < n, ∀ a w,
      .write a w ∈ (((create map display noise).load p.bytes).2.after k).traffic →
        p.bytes.length < a.toNat)
    (hrun : (((create map display noise).load p.bytes).2.after n).processor.halted = false) :
    ∃ i, (((create map display noise).load p.bytes).2.after n).step.1 = some i ∧
      p.At (((create map display noise).load p.bytes).2.after n).processor.ip.toNat i := by
  have hp : Tiled p := tiled_of_assemble hassemble
  have hstart := onCourse_load hp display noise hroom (Nat.lt_succ_of_le hsize)
  exact at_of_onCourse hp (onCourse_after hp hstart hwrite) hrun

/-- A program that writes behind itself and then jumps back.  After six steps it is at its fourth
row again, which pushes 1. -/
theorem control_stays_on_rows_of_loop :
    let p : Program := ⟨[⟨0, .pushInt 7, 0, 6⟩, ⟨5, .pushInt 64, 7, 7⟩, ⟨10, .write, 15, 5⟩,
      ⟨11, .pushInt 1, 31, 6⟩, ⟨16, .pushInt 2, 38, 6⟩, ⟨21, .jumpIfLess (-10), 45, 6⟩]⟩
    let m := ((create .standard (Display.dark 64) (Noise.counting 0 1)).load p.bytes).2
    assemble "push 7 push 64 write #here top push 1 push 2 jl top" = .ok p ∧
      (m.after 6).processor.ip = 11 ∧ (m.after 6).step.1 = some (.pushInt 1) ∧
      p.At 11 (.pushInt 1) := by
  intro p m
  have hassemble : assemble "push 7 push 64 write #here top push 1 push 2 jl top" = .ok p :=
    toOption_eq_some_iff.mp (by decide +kernel)
  have hspares : ∀ k < 6, ∀ t ∈ (m.after k).traffic, t.spares p.bytes.length = true := by
    decide +kernel
  have hwrite : ∀ k < 6, ∀ a w, .write a w ∈ (m.after k).traffic → p.bytes.length < a.toNat :=
    fun k hk a w hmem => of_decide_eq_true (hspares k hk _ hmem)
  have hip : (m.after 6).processor.ip = 11 := by decide +kernel
  have hstep : (m.after 6).step.1 = some (.pushInt 1) := by decide +kernel
  obtain ⟨i, hnext, hat⟩ := control_stays_on_rows hassemble (Display.dark 64) (Noise.counting 0 1)
    (by decide) (by decide) hwrite (by decide +kernel)
  obtain rfl : i = .pushInt 1 := Option.some.inj (hnext.symm.trans hstep)
  rw [hip] at hat
  exact ⟨hassemble, hip, hstep, hat⟩

end Machine

end Ledboard
