/-
# Straight lines of code

Most instructions work on the stack and the registers only and go on behind themselves.  A list of
them can be carried out on an ideal processor without any bus (`IdealProcessor.runs?`), which is a
computation.  Where these instructions lie in RAM in front of the processor, this is what the
machine does in as many steps (`after_of_runs`), and its bus is the same afterwards: fetching from
RAM changes nothing (`fetch_eq_of_begins`).

The instructions between straight lines are taken one by one (`step_of_execute`).
-/
import Ledboard.Proofs.IdealStack
import Ledboard.Proofs.Listing
import Ledboard.Proofs.ControlFlow

namespace Ledboard

/-! ## 1. Fetching from RAM -/

/-- Reading code leaves the whole bus as it is. -/
theorem Bus.read_of_begins {bus : Bus} {code : List UInt8} (h : bus.Begins code)
    {address : UInt32} (hcode : address.toNat < code.length) : (bus.read address).2 = bus := by
  obtain ⟨bindings, displays⟩ := bus
  obtain ⟨last, ram, rest, rfl, hlast, -⟩ := h
  have hholds : (⟨0, last, .ram ram⟩ : Binding).holds address = true :=
    Binding.holds_from_zero.mpr (by omega)
  simp only [Bus.read, Binding.readFirst, hholds, if_true, Device.read]

namespace Processor

open Addressable Instruction

/-- **A fetch finds the instruction that lies at its address, and changes nothing.** -/
theorem fetch_eq_of_begins {bus : Bus} {code front back : List UInt8} (h : bus.Begins code)
    {i : Instruction} (hi : i.Canonical) (hcode : code = front ++ (i.encode ++ back)) {ip : UInt32}
    (hip : ip.toNat = front.length) : fetch bus ip = (i, bus) := by
  have hfound := fetch_of_begins h hi hcode hip
  have hlength : code.length = front.length + (i.width + back.length) := by
    rw [hcode, List.length_append, List.length_append, length_encode]
  have hpos := i.width_pos
  have hfirst : (readWord bus ip).2 = bus := Bus.read_of_begins h (by omega)
  refine Prod.ext hfound ?_
  unfold fetch at hfound ⊢
  by_cases hlong : (readWord bus ip).1.b0 = 2
  · simp only [if_pos hlong] at hfound ⊢
    have hwidth : i.width = 5 := by
      rw [← hfound, hlong]
      rfl
    have hnext : (ip + 1).toNat < code.length := by
      have hle := Nat.mod_le (ip.toNat + 1) 4294967296
      rw [UInt32.toNat_add, UInt32.toNat_one]
      omega
    rw [hfirst]
    exact Bus.read_of_begins h hnext
  · simp only [if_neg hlong]
    exact hfirst

end Processor

/-! ## 2. Straight lines on an ideal processor -/

/-- Whether an instruction needs no bus and goes on behind itself. -/
def Instruction.isStraight : Instruction → Bool
  | .halt => false
  | .jumpIfLess _ => false
  | .read => false
  | .write => false
  | .pushReg _ | .pushInt _ | .popReg _ | .add | .mul | .unknown _ => true

namespace IdealProcessor

variable {s s' : IdealProcessor} {i : Instruction}

theorem register_eq_getElem (s : IdealProcessor) (n : UInt8) (h : n.toNat % 32 < 32) :
    s.register n = s.registers[n.toNat % 32] := rfl

/-- One cycle with such an instruction. -/
def advance? (s : IdealProcessor) (i : Instruction) : Option IdealProcessor :=
  if i.isStraight then
    (execute? { s with cycles := s.cycles + 1 } (Bus.empty #[]) i).map Prod.fst
  else none

/-- As many cycles as there are instructions, with a stack of 256 words at most. -/
def runs? (s : IdealProcessor) : List Instruction → Option IdealProcessor
  | [] => some s
  | i :: rest =>
    match s.advance? i with
    | some next => if next.stack.length ≤ 256 then next.runs? rest else none
    | none => none

/-- Such an instruction does the same on any bus, and leaves it alone. -/
theorem execute?_of_advance (h : s.advance? i = some s') (bus : Bus) :
    execute? { s with cycles := s.cycles + 1 } bus i = some (s', bus) ∧
      s'.ip = s.ip + UInt32.ofNat i.width ∧ s'.halted = s.halted := by
  obtain ⟨cycles, ip, halted, registers, stack⟩ := s
  cases i with
  | halt => exact absurd h (by simp [advance?, Instruction.isStraight])
  | jumpIfLess d => exact absurd h (by simp [advance?, Instruction.isStraight])
  | read => exact absurd h (by simp [advance?, Instruction.isStraight])
  | write => exact absurd h (by simp [advance?, Instruction.isStraight])
  | popReg r =>
    rcases stack with _ | ⟨w, rest⟩
    · exact absurd h (by simp [advance?, execute?])
    · obtain rfl := Option.some.inj h
      exact ⟨rfl, rfl, rfl⟩
  | add =>
    rcases stack with _ | ⟨b, _ | ⟨a, rest⟩⟩
    · exact absurd h (by simp [advance?, execute?])
    · exact absurd h (by simp [advance?, execute?])
    · obtain rfl := Option.some.inj h
      exact ⟨rfl, rfl, rfl⟩
  | mul =>
    rcases stack with _ | ⟨b, _ | ⟨a, rest⟩⟩
    · exact absurd h (by simp [advance?, execute?])
    · exact absurd h (by simp [advance?, execute?])
    · obtain rfl := Option.some.inj h
      exact ⟨rfl, rfl, rfl⟩
  | pushReg r =>
    obtain rfl := Option.some.inj h
    exact ⟨rfl, rfl, rfl⟩
  | pushInt v =>
    obtain rfl := Option.some.inj h
    exact ⟨rfl, rfl, rfl⟩
  | unknown op =>
    obtain rfl := Option.some.inj h
    exact ⟨rfl, rfl, rfl⟩

end IdealProcessor

/-! ## 3. Straight lines on a machine -/

/-- A machine whose processor is not halted, stands in front of a place in the code at the start of
its RAM, and agrees with an ideal one. -/
structure Machine.StandsAt (code : List UInt8) (offset : Nat) (s : IdealProcessor) (m : Machine) :
    Prop where
  agrees : Agrees m.processor s
  begins : m.bus.Begins code
  running : s.halted = false
  room : s.stack.length ≤ 256
  place : s.ip.toNat = offset

namespace Machine

open Instruction

variable {m : Machine} {code back : List UInt8} {s s' : IdealProcessor} {i : Instruction}
  {is : List Instruction}

/-- **One step**, with whatever instruction lies there. -/
theorem step_of_execute (front : List UInt8) (h : m.StandsAt code front.length s)
    (hi : i.Canonical)
    (hcode : code = front ++ (i.encode ++ back)) {bus : Bus}
    (hexecute : IdealProcessor.execute? { s with cycles := s.cycles + 1 } m.bus i = some (s', bus))
    (hroom : s'.stack.length ≤ 256) :
    Agrees m.step.2.processor s' ∧ m.step.2.bus = bus ∧ m.step.2.map = m.map := by
  have hcycle : s.cycle? m.bus = some (s', bus) := by
    rw [IdealProcessor.cycle?_of_running h.running,
      Processor.fetch_eq_of_begins h.begins hi hcode h.place]
    exact hexecute
  obtain ⟨hagrees, hbus⟩ := Processor.agrees_cycle h.agrees h.room hcycle hroom
  exact ⟨hagrees, hbus, rfl⟩

/-- The same, where the instruction leads to a place in the code again and leaves the code as it
is. -/
theorem standsAt_step (front : List UInt8) (h : m.StandsAt code front.length s)
    (hi : i.Canonical)
    (hcode : code = front ++ (i.encode ++ back)) {bus : Bus} {offset : Nat}
    (hexecute : IdealProcessor.execute? { s with cycles := s.cycles + 1 } m.bus i = some (s', bus))
    (hroom : s'.stack.length ≤ 256) (hbegins : bus.Begins code) (hrunning : s'.halted = false)
    (hplace : s'.ip.toNat = offset) :
    m.step.2.StandsAt code offset s' ∧ m.step.2.bus = bus ∧ m.step.2.map = m.map := by
  obtain ⟨hagrees, rfl, hmap⟩ := step_of_execute front h hi hcode hexecute hroom
  exact ⟨⟨hagrees, hbegins, hrunning, hroom, hplace⟩, rfl, hmap⟩

/-- Behind an instruction of the code control goes on without wrapping. -/
theorem toNat_pass {front : List UInt8} (hcode : code = front ++ (i.encode ++ back))
    (hsize : code.length < UInt32.size) {ip : UInt32} (hip : ip.toNat = front.length) :
    (ip + UInt32.ofNat i.width).toNat = front.length + i.width := by
  have hlength := congrArg List.length hcode
  simp only [List.length_append, length_encode] at hlength
  exact Processor.toNat_next (by rw [hip]) (by omega)

/-- **A straight line of instructions** is carried out in as many steps, without a trace on the
bus. -/
theorem after_of_runs (front : List UInt8) (h : m.StandsAt code front.length s)
    (his : ∀ i ∈ is, i.Canonical)
    (hcode : code = front ++ (encodeAll is ++ back)) (hsize : code.length < UInt32.size)
    (hruns : s.runs? is = some s') :
    (m.after is.length).StandsAt code (front.length + totalWidth is) s' ∧
      (m.after is.length).bus = m.bus ∧ (m.after is.length).map = m.map := by
  induction is generalizing m front s with
  | nil =>
    obtain rfl := Option.some.inj hruns
    exact ⟨h, rfl, rfl⟩
  | cons i rest ih =>
    obtain ⟨hi, hrest⟩ := List.forall_mem_cons.mp his
    rw [encodeAll_cons, List.append_assoc] at hcode
    unfold IdealProcessor.runs? at hruns
    cases hadvance : s.advance? i with
    | none => simp [hadvance] at hruns
    | some next =>
      simp only [hadvance] at hruns
      split at hruns
      · rename_i hroom
        obtain ⟨hexecute, hip, hhalted⟩ := IdealProcessor.execute?_of_advance hadvance m.bus
        have hplace : next.ip.toNat = (front ++ i.encode).length := by
          rw [hip, toNat_pass hcode hsize h.place, List.length_append, length_encode]
        obtain ⟨hnext, hbus, hmap⟩ := standsAt_step _ h hi hcode hexecute hroom h.begins
          (hhalted.trans h.running) hplace
        obtain ⟨hstands, hbus', hmap'⟩ :=
          ih _ hnext hrest (by rw [hcode, List.append_assoc]) hruns
        rw [List.length_append, length_encode, Nat.add_assoc, ← totalWidth_cons] at hstands
        rw [List.length_cons, after_succ]
        exact ⟨hstands, hbus'.trans hbus, hmap'.trans hmap⟩
      · exact absurd hruns (by simp)

/-- **A write** behind the code takes an address and a word from the stack. -/
theorem standsAt_write (front : List UInt8) (h : m.StandsAt code front.length s)
    {address w : Word} {rest : List Word}
    (hstack : s.stack = address :: w :: rest)
    (hcode : code = front ++ (Instruction.write.encode ++ back)) (hsize : code.length < UInt32.size)
    (hbehind : code.length ≤ address.toUInt32.toNat) :
    ∃ s', m.step.2.StandsAt code (front.length + 1) s' ∧ s'.stack = rest ∧
      s'.registers = s.registers ∧ m.step.2.bus = m.bus.write address.toUInt32 w ∧
      m.step.2.map = m.map := by
  have hroom := h.room
  rw [hstack, List.length_cons, List.length_cons] at hroom
  have hexecute : IdealProcessor.execute? { s with cycles := s.cycles + 1 } m.bus .write =
      some ((IdealProcessor.withStack { s with cycles := s.cycles + 1 } rest).pass .write,
        m.bus.write address.toUInt32 w) := by
    simp only [IdealProcessor.execute?, hstack]
    rfl
  obtain ⟨hstands, hbus, hmap⟩ := standsAt_step (i := .write) front h trivial hcode hexecute
    (Nat.le_of_succ_le (Nat.le_of_succ_le hroom)) (Bus.begins_write h.begins w hbehind) h.running
    (toNat_pass hcode hsize h.place)
  exact ⟨_, hstands, rfl, rfl, hbus, hmap⟩

/-- **A jump** takes two words from the stack and goes to its target, or on behind itself. -/
theorem standsAt_jumpIfLess (front : List UInt8) (h : m.StandsAt code front.length s)
    {a b : Word} {rest : List Word}
    (hstack : s.stack = b :: a :: rest) {d : Int16}
    (hcode : code = front ++ ((jumpIfLess d).encode ++ back)) (hsize : code.length < UInt32.size)
    (target : Nat) (htarget : (front.length : Int) + d.toInt = target)
    (hinside : target < UInt32.size) :
    ∃ s', m.step.2.StandsAt code (if a.toInt32 < b.toInt32 then target else front.length + 3) s' ∧
      s'.stack = rest ∧ s'.registers = s.registers ∧ m.step.2.bus = m.bus ∧
      m.step.2.map = m.map := by
  have hroom := h.room
  rw [hstack, List.length_cons, List.length_cons] at hroom
  have hexecute : IdealProcessor.execute? { s with cycles := s.cycles + 1 } m.bus (.jumpIfLess d) =
      some (if a.toInt32 < b.toInt32 then
          { s.withStack rest with cycles := s.cycles + 1, ip := Processor.target s.ip d }
        else (IdealProcessor.withStack { s with cycles := s.cycles + 1 } rest).pass
          (.jumpIfLess d), m.bus) := by
    simp only [IdealProcessor.execute?, hstack]
    rfl
  by_cases hless : a.toInt32 < b.toInt32
  · rw [if_pos hless] at hexecute ⊢
    obtain ⟨hstands, hbus, hmap⟩ := standsAt_step (i := .jumpIfLess d) front h trivial hcode hexecute
      (Nat.le_of_succ_le (Nat.le_of_succ_le hroom)) h.begins h.running
      (Processor.toNat_target (h.place ▸ htarget) hinside)
    exact ⟨_, hstands, rfl, rfl, hbus, hmap⟩
  · rw [if_neg hless] at hexecute ⊢
    obtain ⟨hstands, hbus, hmap⟩ := standsAt_step (i := .jumpIfLess d) front h trivial hcode hexecute
      (Nat.le_of_succ_le (Nat.le_of_succ_le hroom)) h.begins h.running
      (toNat_pass hcode hsize h.place)
    exact ⟨_, hstands, rfl, rfl, hbus, hmap⟩

end Machine

end Ledboard
