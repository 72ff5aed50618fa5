/-
# Careful operations

Some operations have a result within a domain only: the distance of an address from the start of a
window, a byte of RAM, a slot of the stack, a register, a LED of the frame, the next number of a
cycle, the rest of a division by a period.  The definitions of the board give some value outside of
the domain as well.  Here the same work is done carefully: an operation outside of its domain gives
nothing, and then neither does the work that it is a part of.

Careful work comes to what the work itself comes to

* always, for the devices and the bus (`Bus.read?_eq`, `Bus.write?_eq`) and for the messages of
  clients (`Board.dispatch?_eq`), since these look before they act;
* for the processor, if its stack pointer stands in front of a whole word (`Processor.Aligned`),
  which every cycle keeps, and while its counter has room for the cycle (`Processor.cycle?_eq`);
* for a batch of cycles, if the period of its snapshots is not zero (`Machine.runBatch?_eq`); with a
  period of zero no batch of a processor that is not halted is carried out carefully
  (`Machine.runBatch?_of_zero_period`).
-/
import Ledboard.Proofs.Batches
import Ledboard.Proofs.Commands
import Ledboard.Proofs.Encoding

namespace Ledboard

/-! ## 1. Devices -/

namespace Ram

/-- Stores bytes from an offset on, each within a capacity. -/
def storeFrom? (capacity : Nat) :
    Array (Array UInt8) → Nat → List UInt8 → Option (Array (Array UInt8))
  | pages, _, [] => some pages
  | pages, offset, b :: bs =>
    if offset < capacity then storeFrom? capacity (setIn pages offset b) (offset + 1) bs else none

/-- Stores a word, every byte of it that is stored within the buffer. -/
def write? (ram : Ram) (offset : Nat) (word : Word) : Option Ram :=
  (storeFrom? ram.capacity ram.pages offset (word.toList.take (ram.room offset Word.size))).map
    (fun pages => ⟨ram.size, pages⟩)

theorem storeFrom?_eq {capacity offset : Nat} {bytes : List UInt8} (pages : Array (Array UInt8))
    (h : bytes = [] ∨ offset + bytes.length ≤ capacity) :
    storeFrom? capacity pages offset bytes = some (storeFrom pages offset bytes) := by
  induction bytes generalizing pages offset with
  | nil => rfl
  | cons b bs ih =>
    have hlength : offset + (bs.length + 1) ≤ capacity := h.resolve_left (List.cons_ne_nil b bs)
    rw [storeFrom?, if_pos (by omega), ih _ (Or.inr (by omega)), storeFrom]

theorem write?_eq (ram : Ram) (offset : Nat) (word : Word) :
    ram.write? offset word = some (ram.write offset word) := by
  have hroom : word.toList.take (ram.room offset Word.size) = [] ∨
      offset + (word.toList.take (ram.room offset Word.size)).length ≤ ram.capacity := by
    by_cases hinside : offset < ram.capacity
    · right
      rw [List.length_take, room]
      omega
    · left
      rw [room, Nat.sub_eq_zero_of_le (Nat.le_of_not_lt hinside), Nat.min_zero, List.take_zero]
  rw [write?, storeFrom?_eq _ hroom]
  rfl

end Ram

namespace Display

/-- Puts a colour into a frame, at a LED of the frame. -/
def store? (frame : Frame) (led : Nat) (color : Rgb) : Option Frame :=
  if h : led < frame.size then some (frame.set led color h) else none

/-- Gives a LED a colour, if there is such a LED. -/
def set? (d : Display) (led : Nat) (color : Rgb) : Option (Bool × Display) :=
  if led < d.ledCount then
    (store? d.frame led color).map (fun frame => (true, { d with frame := frame }))
  else some (false, d)

/-- Writes a word at an offset of the window. -/
def write? (d : Display) (offset : Nat) (word : Word) : Option Display :=
  match ledAt? offset with
  | none => some d
  | some led =>
    (d.set? led (Rgb.ofWord word)).map fun
      | (true, painted) => painted.flush
      | (false, same) => same

/-- Gives the first LEDs the listed colours, none of them to a LED that there is not. -/
def paint? (d : Display) (colors : List Rgb) : Option Display :=
  (go d.frame 0 colors).map (fun frame => { d with frame := frame })
where
  /-- Paints from one LED on. -/
  go : Frame → Nat → List Rgb → Option Frame
    | frame, _, [] => some frame
    | frame, led, c :: cs => (store? frame led c).bind (fun frame => go frame (led + 1) cs)

theorem store?_eq {frame : Frame} {led : Nat} (h : led < frame.size) (color : Rgb) :
    store? frame led color = some (frame.setIfInBounds led color) := by
  rw [store?, dif_pos h, Array.setIfInBounds, dif_pos h]

theorem set?_eq (d : Display) (led : Nat) (color : Rgb) :
    d.set? led color = some (d.set led color) := by
  unfold set? set
  split
  · rename_i h
    rw [store?_eq h]
    rfl
  · rfl

theorem write?_eq (d : Display) (offset : Nat) (word : Word) :
    d.write? offset word = some (d.write offset word) := by
  unfold write? write
  cases ledAt? offset with
  | none => rfl
  | some led =>
    simp only [set?_eq]
    rfl

/-- As many colours as there are LEDs can be painted. -/
theorem paint?_eq {d : Display} {colors : List Rgb} (h : colors.length ≤ d.ledCount) :
    d.paint? colors = some (d.paint colors) := by
  have hgo : ∀ (frame : Frame) (led : Nat), led + colors.length ≤ frame.size →
      paint?.go frame led colors = some (paint.go frame led colors) := by
    clear h
    induction colors with
    | nil => exact fun _ _ _ => rfl
    | cons c cs ih =>
      intro frame led hled
      rw [List.length_cons] at hled
      rw [paint?.go, store?_eq (by omega), Option.bind_some, paint.go,
        ih _ _ (by rw [Array.size_setIfInBounds]; omega)]
  rw [paint?, hgo d.frame 0 (by rw [Nat.zero_add]; exact h)]
  rfl

end Display

/-- Writes a word. -/
def Device.write? (device : Device) (displays : Array Display) (offset : Nat) (word : Word) :
    Option (Device × Array Display) :=
  match device with
  | .ram memory => (memory.write? offset word).map (fun memory => (.ram memory, displays))
  | .display number =>
    match displays[number]? with
    | none => some (.display number, displays)
    | some d =>
      (d.write? offset word).map (fun d => (.display number, displays.setIfInBounds number d))
  | .noise source => some (.noise source, displays)

/-- Changing an element is replacing it, if there is such an element. -/
theorem modify_eq_setIfInBounds {α : Type} (xs : Array α) (i : Nat) (change : α → α) :
    xs.modify i change = (xs[i]?.map (fun x => xs.setIfInBounds i (change x))).getD xs := by
  refine Array.ext_getElem? fun j => ?_
  rw [Array.getElem?_modify]
  cases hi : xs[i]? with
  | none =>
    by_cases hj : i = j
    · rw [if_pos hj, ← hj, hi]
      exact hi.symm
    · rw [if_neg hj]
      rfl
  | some x =>
    rw [Option.map_some, Option.getD_some, Array.getElem?_setIfInBounds]
    by_cases hj : i = j
    · rw [if_pos hj, if_pos hj, if_pos (Array.getElem?_eq_some_iff.mp hi).1, ← hj, hi]
      rfl
    · rw [if_neg hj, if_neg hj]

theorem Device.write?_eq (device : Device) (displays : Array Display) (offset : Nat) (word : Word) :
    device.write? displays offset word = some (device.write displays offset word) := by
  cases device with
  | ram memory =>
    simp only [write?, Ram.write?_eq]
    rfl
  | display number =>
    simp only [write?, write, modify_eq_setIfInBounds]
    cases displays[number]? with
    | none => rfl
    | some d =>
      simp only [Display.write?_eq]
      rfl
  | noise source => rfl

/-! ## 2. The bus -/

namespace Binding

/-- How far into the range of a binding an address lies, if it does not lie in front of it. -/
def offset? (b : Binding) (address : UInt32) : Option Nat :=
  if b.first ≤ address then some (b.offset address) else none

/-- Reads from the first binding that holds the address. -/
def readFirst? (displays : Array Display) (address : UInt32) :
    List Binding → Option (Word × List Binding)
  | [] => some (Word.zero, [])
  | b :: rest =>
    if b.holds address then
      (b.offset? address).map fun offset =>
        let (word, device) := b.device.read displays offset
        (word, { b with device := device } :: rest)
    else
      (readFirst? displays address rest).map (fun (word, rest) => (word, b :: rest))

/-- Writes to the first binding that holds the address. -/
def writeFirst? (displays : Array Display) (address : UInt32) (word : Word) :
    List Binding → Option (List Binding × Array Display)
  | [] => some ([], displays)
  | b :: rest =>
    if b.holds address then do
      let offset ← b.offset? address
      let (device, displays) ← b.device.write? displays offset word
      some ({ b with device := device } :: rest, displays)
    else
      (writeFirst? displays address word rest).map (fun (rest, displays) => (b :: rest, displays))

/-- An address that a binding holds does not lie in front of it. -/
theorem offset?_eq {b : Binding} {address : UInt32} (h : b.holds address = true) :
    b.offset? address = some (b.offset address) := by
  rw [holds, Bool.and_eq_true, decide_eq_true_eq] at h
  exact if_pos h.1

theorem readFirst?_eq (displays : Array Display) (address : UInt32) (bindings : List Binding) :
    readFirst? displays address bindings = some (readFirst displays address bindings) := by
  induction bindings with
  | nil => rfl
  | cons b rest ih =>
    unfold readFirst? readFirst
    split
    · rename_i h
      rw [offset?_eq h]
      rfl
    · rw [ih]
      rfl

theorem writeFirst?_eq (displays : Array Display) (address : UInt32) (word : Word)
    (bindings : List Binding) :
    writeFirst? displays address word bindings =
      some (writeFirst displays address word bindings) := by
  induction bindings with
  | nil => rfl
  | cons b rest ih =>
    unfold writeFirst? writeFirst
    split
    · rename_i h
      simp only [offset?_eq h, Device.write?_eq, Option.bind_eq_bind, Option.bind_some]
    · rw [ih]
      rfl

end Binding

namespace Bus

/-- Reads the word at an address. -/
def read? (bus : Bus) (address : UInt32) : Option (Word × Bus) :=
  (Binding.readFirst? bus.displays address bus.bindings).map
    (fun (word, bindings) => (word, { bus with bindings := bindings }))

/-- Writes the word at an address. -/
def write? (bus : Bus) (address : UInt32) (word : Word) : Option Bus :=
  (Binding.writeFirst? bus.displays address word bus.bindings).map
    (fun (bindings, displays) => ⟨bindings, displays⟩)

/-- **Any bus can be read carefully**, at any address. -/
theorem read?_eq (bus : Bus) (address : UInt32) : bus.read? address = some (bus.read address) := by
  rw [read?, Binding.readFirst?_eq]
  rfl

/-- **Any bus can be written carefully**, at any address. -/
theorem write?_eq (bus : Bus) (address : UInt32) (word : Word) :
    bus.write? address word = some (bus.write address word) := by
  rw [write?, Binding.writeFirst?_eq]
  rfl

end Bus

/-! ## 3. The processor -/

namespace Processor

/-- How many bytes the stack has. -/
def stackBytes : Nat := stackWords * Word.size

/-- The slot of the stack that belongs to a stack pointer, if a whole word of the buffer lies there:
the pointer, cut to the size of the buffer, stands where a word starts and has four bytes before
the end. -/
def slot? (sp : UInt32) : Option (Fin 256) :=
  let start := sp.toNat % stackBytes
  if h : start % Word.size = 0 ∧ start + Word.size ≤ stackBytes then
    some ⟨start / Word.size, by simp only [stackBytes, stackWords, Word.size] at h ⊢; omega⟩
  else none

/-- Pushes a word. -/
def push? (p : Processor) (w : Word) : Option Processor :=
  (slot? p.sp).map fun (slot : Fin 256) =>
    { p with stack := p.stack.set slot.val w slot.isLt, sp := p.sp + 4 }

/-- Pops a word. -/
def pop? (p : Processor) : Option (Word × Processor) :=
  (slot? (p.sp - 4)).map (fun slot => (p.stack.get slot, { p with sp := p.sp - 4 }))

/-- Pops `b`, pops `a` and pushes the combination of `a` and `b`. -/
def combine? (p : Processor) (op : Int32 → Int32 → Int32) : Option Processor := do
  let (b, p) ← p.pop?
  let (a, p) ← p.pop?
  p.push? (Word.ofInt32 (op a.toInt32 b.toInt32))

/-- A register, by its number. -/
def register? (p : Processor) (n : UInt8) : Option Word :=
  if h : n.toNat < 32 then some p.registers[n.toNat] else none

/-- Puts a word into a register. -/
def setRegister? (p : Processor) (n : UInt8) (w : Word) : Option Processor :=
  if h : n.toNat < 32 then some { p with registers := p.registers.set n.toNat w h } else none

/-- Counts a cycle, if the counter has room for it. -/
def count? (p : Processor) : Option Processor :=
  if p.cycles.toNat + 1 < UInt64.size then some { p with cycles := p.cycles + 1 } else none

/-- The instruction at an address, read from the bus. -/
def fetch? (bus : Bus) (ip : UInt32) : Option (Instruction × Bus) := do
  let (word, bus) ← bus.read? ip
  if word.b0 = 2 then do
    let (immediate, bus) ← bus.read? (ip + 1)
    some (Instruction.decode (word.b0 :: immediate.toList), bus)
  else some (Instruction.decode word.toList, bus)

/-- Carries out an instruction that lies at `ip`. -/
def execute? (p : Processor) (bus : Bus) (i : Instruction) : Option (Processor × Bus) :=
  match i with
  | .halt => some ({ p.pass i with halted := true }, bus)
  | .pushReg r => do
    let w ← p.register? r
    let p ← p.push? w
    some (p.pass i, bus)
  | .pushInt v => do
    let p ← p.push? (Word.ofInt32 v)
    some (p.pass i, bus)
  | .popReg r => do
    let (w, p) ← p.pop?
    let p ← p.setRegister? r w
    some (p.pass i, bus)
  | .add => do
    let p ← p.combine? (· + ·)
    some (p.pass i, bus)
  | .mul => do
    let p ← p.combine? (· * ·)
    some (p.pass i, bus)
  | .jumpIfLess d => do
    let (b, p) ← p.pop?
    let (a, p) ← p.pop?
    some (if a.toInt32 < b.toInt32 then { p with ip := target p.ip d } else p.pass i, bus)
  | .read => do
    let (address, p) ← p.pop?
    let (w, bus) ← bus.read? address.toUInt32
    let p ← p.push? w
    some (p.pass i, bus)
  | .write => do
    let (address, p) ← p.pop?
    let (w, p) ← p.pop?
    let bus ← bus.write? address.toUInt32 w
    some (p.pass i, bus)
  | .unknown _ => some (p.pass i, bus)

/-- One cycle. -/
def cycle? (p : Processor) (bus : Bus) : Option (Option Instruction × Processor × Bus) :=
  if p.halted then some (none, p, bus)
  else do
    let (i, bus) ← fetch? bus p.ip
    let p ← p.count?
    let (p, bus) ← p.execute? bus i
    some (some i, p, bus)

/-- A snapshot, if the words that it shows lie in the buffer. -/
def snapshot? (p : Processor) : Option Snapshot :=
  if shownRegisters ≤ 32 ∧ shownWords p.sp * Word.size ≤ stackBytes then some p.snapshot else none

/-- A stack pointer stands in front of a whole word. -/
def Aligned (p : Processor) : Prop := 4 ∣ p.sp.toNat

variable {p : Processor} {bus : Bus} {i : Instruction}

theorem slot?_eq {sp : UInt32} (h : 4 ∣ sp.toNat) : slot? sp = some ⟨slot sp, slot_lt sp⟩ := by
  have hin : sp.toNat % stackBytes % Word.size = 0 ∧
      sp.toNat % stackBytes + Word.size ≤ stackBytes := by
    simp only [stackBytes, stackWords, Word.size]
    omega
  have hslot : sp.toNat % stackBytes / Word.size = slot sp := by
    simp only [slot, stackBytes, stackWords, Word.size]
    omega
  rw [slot?, dif_pos hin]
  simp only [hslot]

/-- A word may not straddle the end of the buffer. -/
example : slot? 1022 = none := by decide

theorem dvd_add_four {sp : UInt32} (h : 4 ∣ sp.toNat) : 4 ∣ (sp + 4).toNat := by
  have hfour : (4 : UInt32).toNat = 4 := rfl
  rw [UInt32.toNat_add, hfour]
  omega

theorem dvd_sub_four {sp : UInt32} (h : 4 ∣ sp.toNat) : 4 ∣ (sp - 4).toNat := by
  have hfour : (4 : UInt32).toNat = 4 := rfl
  rw [UInt32.toNat_sub, hfour]
  omega

theorem push?_eq (h : p.Aligned) (w : Word) : p.push? w = some (p.push w) ∧ (p.push w).Aligned := by
  refine ⟨?_, dvd_add_four h⟩
  rw [push?, slot?_eq h]
  rfl

theorem pop?_eq (h : p.Aligned) : p.pop? = some p.pop ∧ p.pop.2.Aligned := by
  refine ⟨?_, dvd_sub_four h⟩
  rw [pop?, slot?_eq (dvd_sub_four h)]
  rfl

theorem combine?_eq (h : p.Aligned) (op : Int32 → Int32 → Int32) :
    p.combine? op = some (p.combine op) ∧ (p.combine op).Aligned := by
  obtain ⟨hb, h₁⟩ := pop?_eq h
  obtain ⟨ha, h₂⟩ := pop?_eq h₁
  obtain ⟨hpush, h₃⟩ := push?_eq h₂ (Word.ofInt32 (op p.pop.2.pop.1.toInt32 p.pop.1.toInt32))
  simp only [combine?, hb, ha, hpush, Option.bind_eq_bind, Option.bind_some]
  exact ⟨rfl, h₃⟩

theorem register?_eq {n : UInt8} (h : n.toNat < 32) : p.register? n = some (p.register n) := by
  have hn : n.toNat % 32 = n.toNat := Nat.mod_eq_of_lt h
  simp only [register?, dif_pos h, register, Vector.get, hn]
  rfl

theorem setRegister?_eq {n : UInt8} (h : n.toNat < 32) (w : Word) :
    p.setRegister? n w = some (p.setRegister n w) := by
  have hn : n.toNat % 32 = n.toNat := Nat.mod_eq_of_lt h
  simp only [setRegister?, dif_pos h, setRegister, hn]

theorem fetch?_eq (bus : Bus) (ip : UInt32) : fetch? bus ip = some (fetch bus ip) := by
  simp only [fetch?, fetch, Bus.read?_eq, Option.bind_eq_bind, Option.bind_some,
    Addressable.readWord]
  split <;> rfl

/-- What is fetched names a register that there is. -/
theorem canonical_fetch (bus : Bus) (ip : UInt32) : (fetch bus ip).1.Canonical := by
  have hdecode : ∃ bytes, (fetch bus ip).1 = Instruction.decode bytes := by
    simp only [fetch]
    split
    · exact ⟨_, rfl⟩
    · exact ⟨_, rfl⟩
  obtain ⟨bytes, hbytes⟩ := hdecode
  rw [hbytes]
  exact (Instruction.spelled_decode bytes).canonical

/-- **An instruction** is carried out carefully, and leaves the stack pointer in front of a whole
word. -/
theorem execute?_eq (h : p.Aligned) (hi : i.Canonical) (bus : Bus) :
    p.execute? bus i = some (p.execute bus i) ∧ (p.execute bus i).1.Aligned := by
  obtain ⟨hpop, h₁⟩ := pop?_eq h
  obtain ⟨hpop', h₂⟩ := pop?_eq h₁
  cases i with
  | halt => exact ⟨rfl, h⟩
  | pushReg r =>
    obtain ⟨hpush, h'⟩ := push?_eq h (p.register r)
    simp only [execute?, register?_eq hi, hpush, Option.bind_eq_bind, Option.bind_some]
    exact ⟨rfl, h'⟩
  | pushInt v =>
    obtain ⟨hpush, h'⟩ := push?_eq h (Word.ofInt32 v)
    simp only [execute?, hpush, Option.bind_eq_bind, Option.bind_some]
    exact ⟨rfl, h'⟩
  | popReg r =>
    simp only [execute?, hpop, setRegister?_eq hi, Option.bind_eq_bind, Option.bind_some]
    exact ⟨rfl, h₁⟩
  | add =>
    obtain ⟨hcombine, h'⟩ := combine?_eq h (· + ·)
    simp only [execute?, hcombine, Option.bind_eq_bind, Option.bind_some]
    exact ⟨rfl, h'⟩
  | mul =>
    obtain ⟨hcombine, h'⟩ := combine?_eq h (· * ·)
    simp only [execute?, hcombine, Option.bind_eq_bind, Option.bind_some]
    exact ⟨rfl, h'⟩
  | jumpIfLess d =>
    simp only [execute?, hpop, hpop', Option.bind_eq_bind, Option.bind_some]
    refine ⟨rfl, ?_⟩
    simp only [execute]
    split
    · exact h₂
    · exact h₂
  | read =>
    obtain ⟨hpush, h'⟩ := push?_eq h₁ (bus.read p.pop.1.toUInt32).1
    simp only [execute?, hpop, Bus.read?_eq, hpush, Option.bind_eq_bind, Option.bind_some]
    exact ⟨rfl, h'⟩
  | write =>
    simp only [execute?, hpop, hpop', Bus.write?_eq, Option.bind_eq_bind, Option.bind_some]
    exact ⟨rfl, h₂⟩
  | unknown op => exact ⟨rfl, h⟩

/-- **A cycle** is carried out carefully while the counter has room for it, and leaves the stack
pointer in front of a whole word. -/
theorem cycle?_eq (h : p.Aligned) (hcount : p.halted = false → p.cycles.toNat + 1 < UInt64.size)
    (bus : Bus) : p.cycle? bus = some (p.cycle bus) ∧ (p.cycle bus).2.1.Aligned := by
  cases hhalted : p.halted with
  | true =>
    rw [cycle_of_halted hhalted, cycle?, if_pos hhalted]
    exact ⟨rfl, h⟩
  | false =>
    have hcounted : p.count? = some { p with cycles := p.cycles + 1 } := if_pos (hcount hhalted)
    have haligned : Aligned { p with cycles := p.cycles + 1 } := h
    obtain ⟨hexecute, h'⟩ :=
      execute?_eq haligned (canonical_fetch bus p.ip) (fetch bus p.ip).2
    rw [cycle_of_running hhalted]
    refine ⟨?_, h'⟩
    rw [cycle?, if_neg (by rw [hhalted]; decide)]
    simp only [fetch?_eq, hcounted, hexecute, Option.bind_eq_bind, Option.bind_some]

theorem snapshot?_eq (p : Processor) : p.snapshot? = some p.snapshot := by
  refine if_pos ⟨by decide, ?_⟩
  simp only [shownWords, stackBytes, stackWords, Word.size]
  omega

end Processor

/-! ## 4. The machine -/

namespace Machine

/-- One cycle. -/
def step? (m : Machine) : Option (Option Instruction × Machine) :=
  (m.processor.cycle? m.bus).map (fun (i, processor, bus) => (i, ⟨processor, bus, m.map⟩))

/-- Asks for a snapshot if the number of the last cycle is divisible by the period. -/
def requestIfDue? (m : Machine) (every : Option Nat) : Option Machine :=
  match every with
  | none => some m
  | some 0 => none
  | some period => some (m.requestIfDue (some period))

/-- The snapshot that was asked for, if any, and the machine without the request. -/
def takeDebug? (m : Machine) : Option (Option Snapshot × Machine) :=
  if m.processor.debugRequested then
    m.processor.snapshot?.map (fun snapshot => (some snapshot, m.takeDebug.2))
  else some (none, m)

/-- Runs up to `steps` cycles, at least one, and stops early on a halt. -/
def runBatch? (m : Machine) (steps : Nat) (every : Option Nat) :
    Option (Array Snapshot × Machine) :=
  go #[] m (max steps 1)
where
  /-- The same for an exact number of steps, after the snapshots already taken. -/
  go (taken : Array Snapshot) (m : Machine) : Nat → Option (Array Snapshot × Machine)
    | 0 => some (taken, m)
    | left + 1 => do
      match ← m.step? with
      | (none, m) => some (taken, m)
      | (some _, m) =>
        let due ← m.requestIfDue? every
        match ← due.takeDebug? with
        | (none, m) => go taken m left
        | (some snapshot, m) => go (taken.push snapshot) m left

variable {m : Machine} {every : Option Nat}

theorem step?_eq (h : m.processor.Aligned)
    (hcount : m.processor.halted = false → m.processor.cycles.toNat + 1 < UInt64.size) :
    m.step? = some m.step ∧ m.step.2.processor.Aligned := by
  obtain ⟨hcycle, h'⟩ := Processor.cycle?_eq h hcount m.bus
  rw [step?, hcycle]
  exact ⟨rfl, h'⟩

theorem requestIfDue?_eq (hevery : every ≠ some 0) (m : Machine) :
    m.requestIfDue? every = some (m.requestIfDue every) := by
  match every, hevery with
  | none, _ => rfl
  | some (period + 1), _ => rfl

theorem takeDebug?_eq (m : Machine) : m.takeDebug? = some m.takeDebug := by
  unfold takeDebug? takeDebug Processor.takeDebug
  rw [Processor.snapshot?_eq]
  split <;> rfl

/-- A run counts from where it starts. -/
theorem fst_run_go (m : Machine) (ran n : Nat) : (run.go ran m n).1 = ran + (m.run n).1 := by
  induction n generalizing m ran with
  | zero => rfl
  | succ n ih =>
    rw [run, run.go, run.go]
    generalize m.step = outcome
    obtain ⟨_ | i, next⟩ := outcome
    · rfl
    · simp only [ih next (ran + 1), ih next (0 + 1)]
      omega

theorem fst_run_of_halted (h : m.processor.halted = true) (n : Nat) : (m.run n).1 = 0 := by
  cases n with
  | zero => rfl
  | succ n => simp only [run, run.go, step_of_halted h]

theorem fst_run_succ (h : m.processor.halted = false) (n : Nat) :
    (m.run (n + 1)).1 = (m.step.2.run n).1 + 1 := by
  obtain ⟨i, hi, -⟩ := step_of_running h
  rw [run, run.go]
  generalize m.step = outcome at hi
  obtain ⟨_, next⟩ := outcome
  obtain rfl := hi
  simp only [fst_run_go]
  omega

/-- A run does not look at the flag of a request. -/
theorem fst_run_asking (m : Machine) (asked : Bool) (n : Nat) :
    ((m.asking asked).run n).1 = (m.run n).1 := by
  induction n generalizing m with
  | zero => rfl
  | succ n ih =>
    cases hhalted : m.processor.halted with
    | true => rw [fst_run_of_halted hhalted, fst_run_of_halted (m := m.asking asked) hhalted]
    | false =>
      rw [fst_run_succ hhalted, fst_run_succ (m := m.asking asked) hhalted, step_asking, ih]

/-- The counter counts the cycles of a run, while it has room for them. -/
theorem toNat_cycles_after {n : Nat}
    (hcount : m.processor.cycles.toNat + (m.run n).1 < UInt64.size) :
    (m.after n).processor.cycles.toNat = m.processor.cycles.toNat + (m.run n).1 := by
  obtain ⟨count, -, hrun, hcycles, -⟩ := run_go_eq m 0 n
  have hfst : (m.run n).1 = count := by
    rw [run, hrun, Nat.zero_add]
  simp only [hfst, UInt64.size] at hcount ⊢
  rw [hcycles, UInt64.toNat_add, UInt64.toNat_ofNat']
  omega

namespace runBatch?

/-- A batch for an exact number of steps.  By induction on it: a step keeps the stack pointer
aligned, and the batch goes on behind the step with the same machine, without a request. -/
theorem go_eq (hevery : every ≠ some 0) (h : m.processor.Aligned) {n : Nat}
    (hcount : m.processor.cycles.toNat + (m.run n).1 < UInt64.size) (taken : Array Snapshot) :
    go every taken m n = some (runBatch.go every taken m n) ∧
      (runBatch.go every taken m n).2.processor.Aligned := by
  induction n generalizing m taken with
  | zero => exact ⟨rfl, h⟩
  | succ n ih =>
    cases hhalted : m.processor.halted with
    | true =>
      obtain ⟨hstep, -⟩ := step?_eq h (by simp [hhalted])
      rw [go, hstep, runBatch.go_of_halted hhalted, step_of_halted hhalted]
      exact ⟨rfl, h⟩
    | false =>
      rw [fst_run_succ hhalted] at hcount
      obtain ⟨hstep, haligned⟩ := step?_eq h (fun _ => by omega)
      obtain ⟨i, hi, hcycles⟩ := step_of_running hhalted
      have hrest : (m.step.2.asking false).processor.cycles.toNat +
          ((m.step.2.asking false).run n).1 < UInt64.size := by
        have hnumber : (m.step.2.asking false).processor.cycles.toNat =
            m.processor.cycles.toNat + 1 := by
          change m.step.2.processor.cycles.toNat = _
          rw [hcycles, UInt64.toNat_add, UInt64.toNat_one]
          simp only [UInt64.size] at hcount
          omega
        rw [fst_run_asking, hnumber]
        omega
      have hlater := ih (m := m.step.2.asking false) haligned hrest
      simp only [go, runBatch.go, hstep, Option.bind_eq_bind, Option.bind_some]
      generalize m.step = outcome at hi hlater
      obtain ⟨_, next⟩ := outcome
      obtain rfl := hi
      simp only [requestIfDue?_eq hevery, Option.bind_some, takeDebug?_eq, takeDebug_requestIfDue]
      cases next.onPeriod every || next.processor.debugRequested with
      | true => exact hlater (taken.push next.processor.snapshot)
      | false => exact hlater taken

end runBatch?

/-- **A batch** is carried out carefully if the period is not zero, while the counter has room for
the cycles that it runs. -/
theorem runBatch?_eq (hevery : every ≠ some 0) (h : m.processor.Aligned) {steps : Nat}
    (hcount : m.processor.cycles.toNat + (m.run (max steps 1)).1 < UInt64.size) :
    m.runBatch? steps every = some (m.runBatch steps every) ∧
      (m.runBatch steps every).2.processor.Aligned :=
  runBatch?.go_eq hevery h hcount #[]

/-- With a period of zero the first cycle of a batch has no careful end. -/
theorem runBatch?_of_zero_period (h : m.processor.Aligned) (hrunning : m.processor.halted = false)
    (hcount : m.processor.cycles.toNat + 1 < UInt64.size) (steps : Nat) :
    m.runBatch? steps (some 0) = none := by
  obtain ⟨left, hleft⟩ := Nat.exists_eq_add_of_le' (Nat.le_max_right steps 1)
  obtain ⟨i, hi, -⟩ := step_of_running hrunning
  obtain ⟨hstep, -⟩ := step?_eq h (fun _ => hcount)
  rw [runBatch?, hleft, runBatch?.go, hstep]
  generalize m.step = outcome at hi
  obtain ⟨_, next⟩ := outcome
  obtain rfl := hi
  rfl

end Machine

/-! ## 5. Messages -/

/-- Carries out a command. -/
def Command.run? (c : Command) (store : ProgramStore) (board : Board) :
    Option (Except StoreError (Effect × Board)) :=
  match c.colors? board.display.ledCount with
  | some colors =>
    (board.display.paint? colors).map
      (fun d => .ok (.display colors.length, { board with display := d.flush }))
  | none => some (c.run store board)

/-- Carries out a message. -/
def Board.dispatch? (board : Board) (store : ProgramStore) (message : List UInt8) :
    Option (Except StoreError (Effect × Board)) :=
  (Command.ofMessage message).run? store board

/-- A message has no more colours for a chain than there are LEDs. -/
theorem length_le_of_colors? {message : List UInt8} {leds : Nat} {colors : List Rgb}
    (h : (Command.ofMessage message).colors? leds = some colors) : colors.length ≤ leds := by
  rw [colors?_eq] at h
  obtain ⟨c, -, rfl⟩ := Option.map_eq_some_iff.mp h
  rw [List.length_map, List.length_range]
  exact Nat.min_le_left _ _

/-- **Every message is carried out carefully**, on any board. -/
theorem Board.dispatch?_eq (board : Board) (store : ProgramStore) (message : List UInt8) :
    board.dispatch? store message = some (board.dispatch store message) := by
  unfold dispatch? dispatch Command.run?
  cases hcolors : (Command.ofMessage message).colors? board.display.ledCount with
  | none => rfl
  | some colors =>
    simp only [Display.paint?_eq (length_le_of_colors? hcolors), Command.run, hcolors]
    rfl

end Ledboard
