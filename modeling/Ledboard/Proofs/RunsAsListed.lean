/-
# Programs run as they are listed

A listing decodes the bytes of a program from a flat string, in which what is missing counts as
zero.  The processor reads words over the bus, and for a push of a number two of them, which overlap
and may reach behind the program, into the last bytes of the RAM's buffer, or to the address behind
RAM, where no device answers.  Both find the same instructions at all addresses of RAM, and so a run
that takes no jump executes the rows of the listing one after another (`runs_as_listed`).  The
program may be any bytes that RAM has room for.

* **Decoding** (`decode_congr`).  An instruction depends on as many bytes as it is wide, so it is
  found in the one or two words that are fetched.
* **Reading** (`Bus.read_of_carries`).  With the program in a RAM that was zeroed, the word at an
  address of RAM, or at the next one behind it, is that of the flat string.
* **Cycles** (`cycle_of_carries`).  So a cycle carries out what a listing finds at `ip`.
* **Runs** (`executed_of_lists`).  A run goes through the rows by induction on the listing.  What
  carries it is that the next row starts at `ip`, as long as there is one.
-/
import Ledboard.Proofs.Batches
import Ledboard.Proofs.ControlFlow
import Ledboard.Proofs.LedWords
import Ledboard.Proofs.Listing

namespace Ledboard

/-! ## 1. Decoding -/

namespace Instruction

variable {byte other : Nat → UInt8} {bytes : List UInt8} {i : Instruction}

/-- What bytes spell does not depend on the bytes behind it. -/
theorem Spelled.congr (h : Spelled byte i) (hsame : ∀ k < i.width, other k = byte k) :
    Spelled other i := by
  have hfirst := hsame 0 i.width_pos
  cases h with
  | halt h => exact .halt (hfirst.trans h)
  | add h => exact .add (hfirst.trans h)
  | mul h => exact .mul (hfirst.trans h)
  | read h => exact .read (hfirst.trans h)
  | write h => exact .write (hfirst.trans h)
  | pushReg h =>
    rw [← hsame 1 (by simp [width])]
    exact .pushReg (hfirst.trans h)
  | popReg h =>
    rw [← hsame 1 (by simp [width])]
    exact .popReg (hfirst.trans h)
  | pushInt h =>
    rw [← hsame 1 (by simp [width]), ← hsame 2 (by simp [width]), ← hsame 3 (by simp [width]),
      ← hsame 4 (by simp [width])]
    exact .pushInt (hfirst.trans h)
  | jumpIfLess h =>
    rw [← hsame 1 (by simp [width]), ← hsame 2 (by simp [width])]
    exact .jumpIfLess (hfirst.trans h)
  | unknown h =>
    rw [← hfirst] at h ⊢
    exact .unknown h

/-- What bytes spell is decoded from them. -/
theorem Spelled.decode_eq (h : Spelled (fun k => bytes.getD k 0) i) : decode bytes = i := by
  cases h with
  | unknown h =>
    obtain ⟨n, hn⟩ : ∃ n, (bytes.getD 0 0).toNat = n + 9 := Nat.exists_eq_add_of_le' h
    simp only [decode, hn]
  | _ h =>
    simp only [decode, h]
    rfl

/-- Only a number on the way to the stack takes more than four bytes. -/
theorem Spelled.width_le (h : Spelled byte i) (hfirst : byte 0 ≠ 2) : i.width ≤ 4 := by
  cases h with
  | pushInt h => exact absurd h hfirst
  | _ => simp [width]

/-- **Decoding depends on no byte behind the instruction.** -/
theorem decode_congr {others : List UInt8}
    (hsame : ∀ k < (decode bytes).width, others.getD k 0 = bytes.getD k 0) :
    decode others = decode bytes :=
  ((spelled_decode bytes).congr hsame).decode_eq

/-- The first word of some bytes is enough, unless they start with the push of a number. -/
theorem decode_ofList (h : bytes.getD 0 0 ≠ 2) :
    decode (Word.ofList bytes).toList = decode bytes := by
  refine decode_congr fun k hk => ?_
  have hwidth : (decode bytes).width ≤ 4 := (spelled_decode bytes).width_le h
  have hcases : k = 0 ∨ k = 1 ∨ k = 2 ∨ k = 3 := by omega
  rcases hcases with rfl | rfl | rfl | rfl <;> rfl

/-- The first byte and the word behind it are always enough. -/
theorem decode_cons_ofList (bytes : List UInt8) :
    decode (bytes.getD 0 0 :: (Word.ofList (bytes.drop 1)).toList) = decode bytes := by
  refine decode_congr fun k hk => ?_
  have hwidth : (decode bytes).width ≤ 5 := Instruction.width_le _
  have hcases : k = 0 ∨ k = 1 ∨ k = 2 ∨ k = 3 ∨ k = 4 := by omega
  cases bytes with
  | nil => rcases hcases with rfl | rfl | rfl | rfl | rfl <;> rfl
  | cons b bs => rcases hcases with rfl | rfl | rfl | rfl | rfl <;> rfl

end Instruction

/-! ## 2. Reading -/

namespace AddressMap

/-- Whether an address lies in the display window. -/
def InVideo (map : AddressMap) (address : UInt32) : Prop :=
  map.videoRange.1 ≤ address ∧ address ≤ map.videoRange.2

/-- Whether an address lies in the noise window. -/
def InNoise (map : AddressMap) (address : UInt32) : Prop :=
  map.noiseRange.1 ≤ address ∧ address ≤ map.noiseRange.2

instance (map : AddressMap) (address : UInt32) : Decidable (map.InVideo address) :=
  inferInstanceAs (Decidable (_ ∧ _))

instance (map : AddressMap) (address : UInt32) : Decidable (map.InNoise address) :=
  inferInstanceAs (Decidable (_ ∧ _))

/-- A map with room for a program in RAM, where no device answers behind RAM. -/
structure Fits (map : AddressMap) (program : List UInt8) : Prop where
  room : program.length ≤ map.ramSize
  size : map.ramSize ≤ 4294967295
  no_video : ¬ map.InVideo (UInt32.ofNat map.ramSize)
  no_noise : ¬ map.InNoise (UInt32.ofNat map.ramSize)

/-- The display window, as a binding has it. -/
theorem holds_iff_inVideo {map : AddressMap} {address : UInt32} {window : Device} :
    Binding.holds ⟨map.videoRange.1, map.videoRange.2, window⟩ address = true ↔
      map.InVideo address := Binding.holds_eq_true_iff

/-- The noise window, as a binding has it. -/
theorem holds_iff_inNoise {map : AddressMap} {address : UInt32} {source : Device} :
    Binding.holds ⟨map.noiseRange.1, map.noiseRange.2, source⟩ address = true ↔
      map.InNoise address := Binding.holds_eq_true_iff

end AddressMap

/-- A bus that is wired by a map, with a program in a RAM that was zero before. -/
def Bus.Carries (map : AddressMap) (program : List UInt8) (bus : Bus) : Prop :=
  ∃ source, bus.bindings = map.windows ((Ram.ofSize map.ramSize).load 0 program) source

section

variable {map : AddressMap} {program : List UInt8} {bus : Bus} {address : UInt32}

/-- The bytes of RAM are those of the program, and zero behind it. -/
theorem Ram.byteAt_of_room {size : Nat} (hroom : program.length ≤ size) (i : Nat) :
    ((Ram.ofSize size).load 0 program).byteAt i = program.getD i 0 := by
  rw [Ram.byteAt_load_ofSize]
  split
  · rfl
  · rw [List.getD_eq_default _ _ (by omega)]

theorem Ram.read_of_room {size : Nat} (hroom : program.length ≤ size) (offset : Nat) :
    ((Ram.ofSize size).load 0 program).read offset = Word.ofList (program.drop offset) := by
  simp only [Ram.read, Ram.byteAt_of_room hroom, Word.ofList, List.getD_eq_getElem?_getD,
    List.getElem?_drop, Nat.add_zero]

namespace Bus

theorem carries_load (map : AddressMap) (program : List UInt8) (display : Display) (noise : Noise) :
    ((Machine.create map display noise).load program).2.bus.Carries map program := ⟨_, rfl⟩

/-- Reading keeps RAM. -/
theorem carries_read (h : bus.Carries map program) (address : UInt32) :
    (bus.read address).2.Carries map program := by
  obtain ⟨source, hbindings⟩ := h
  rcases bus with ⟨bindings, displays⟩
  subst hbindings
  simp only [AddressMap.windows, read, Binding.readFirst, Device.read]
  repeat' split
  all_goals exact ⟨_, rfl⟩

/-- So does a write outside of RAM. -/
theorem carries_write (h : bus.Carries map program) (hram : ¬ map.InRam address) (word : Word) :
    (bus.write address word).Carries map program := by
  obtain ⟨source, hbindings⟩ := h
  rcases bus with ⟨bindings, displays⟩
  subst hbindings
  simp only [AddressMap.windows, write, Binding.writeFirst, Device.write, AddressMap.holds_ram_iff,
    if_neg hram]
  repeat' split
  all_goals exact ⟨_, rfl⟩

/-- **A word is read as from the flat bytes of the program**, up to the address behind RAM, and
reading it changes nothing. -/
theorem read_of_carries (hfits : map.Fits program) (h : bus.Carries map program)
    (haddress : address.toNat ≤ map.ramSize) :
    bus.read address = (Word.ofList (program.drop address.toNat), bus) := by
  have hlast := AddressMap.toNat_ramRange (Nat.lt_succ_of_le hfits.size)
  obtain ⟨source, hbindings⟩ := h
  rcases bus with ⟨bindings, displays⟩
  subst hbindings
  by_cases hram : map.InRam address
  · have hoffset : Binding.offset ⟨map.ramRange.1, map.ramRange.2,
        .ram ((Ram.ofSize map.ramSize).load 0 program)⟩ address = address.toNat :=
      Binding.offset_from_zero
    simp only [AddressMap.windows, read, Binding.readFirst, Device.read, AddressMap.holds_ram_iff,
      if_pos hram, hoffset, Ram.read_of_room hfits.room]
  · -- The only address up to here that RAM does not answer is the one behind it.
    have hbehind : address.toNat = map.ramSize := by
      have hlow : map.ramRange.1 ≤ address := UInt32.le_iff_toNat_le.mpr (Nat.zero_le _)
      have hhigh : ¬ address.toNat ≤ map.ramSize - 1 := by
        rw [← hlast, ← UInt32.le_iff_toNat_le]
        exact fun hle => hram ⟨hlow, hle⟩
      omega
    have hvideo := hfits.no_video
    have hnoise := hfits.no_noise
    rw [← hbehind, UInt32.ofNat_toNat] at hvideo hnoise
    have hnothing : program.drop address.toNat = [] :=
      List.drop_of_length_le (hbehind ▸ hfits.room)
    simp only [AddressMap.windows, read, Binding.readFirst, AddressMap.holds_ram_iff,
      AddressMap.holds_iff_inVideo, AddressMap.holds_iff_inNoise, if_neg hram, if_neg hvideo,
      if_neg hnoise, hnothing]
    rfl

end Bus

end

/-! ## 3. Cycles -/

namespace Processor

open Addressable Instruction

variable {map : AddressMap} {program : List UInt8} {bus : Bus} {p : Processor} {i : Instruction}

/-- **A fetch finds what a listing finds**, at every address of RAM, and changes nothing. -/
theorem fetch_of_carries (hfits : map.Fits program) (h : bus.Carries map program) {ip : UInt32}
    (hip : ip.toNat < map.ramSize) : fetch bus ip = (decode (program.drop ip.toNat), bus) := by
  have hnext : (ip + 1).toNat = ip.toNat + 1 :=
    toNat_next rfl (Nat.lt_succ_of_le (Nat.le_trans hip hfits.size))
  have hword : readWord bus ip = (Word.ofList (program.drop ip.toNat), bus) :=
    Bus.read_of_carries hfits h (Nat.le_of_lt hip)
  -- From the last address of RAM on, the second word is the one behind RAM.
  have himmediate : readWord bus (ip + 1) =
      (Word.ofList ((program.drop ip.toNat).drop 1), bus) := by
    rw [List.drop_drop, ← hnext]
    exact Bus.read_of_carries hfits h (hnext ▸ hip)
  simp only [fetch, hword, himmediate]
  split
  · exact congrArg (·, bus) (decode_cons_ofList _)
  · rename_i hshort
    exact congrArg (·, bus) (decode_ofList hshort)

/-- **A cycle carries out what a listing finds at `ip`.** -/
theorem cycle_of_carries (hfits : map.Fits program) (h : bus.Carries map program)
    (hrunning : p.halted = false) (hip : p.ip.toNat < map.ramSize) :
    p.cycle bus = (some (decode (program.drop p.ip.toNat)),
      execute { p with cycles := p.cycles + 1 } bus (decode (program.drop p.ip.toNat))) := by
  rw [cycle_of_running hrunning, fetch_of_carries hfits h hip]

/-- Whether an instruction is a jump that is taken: the number below the top of the stack is less
than the one on top. -/
def takesJump (p : Processor) : Instruction → Bool
  | .jumpIfLess _ =>
    let (b, p) := p.pop
    let (a, _) := p.pop
    decide (a.toInt32 < b.toInt32)
  | _ => false

theorem takesJump_count (p : Processor) (i : Instruction) :
    { p with cycles := p.cycles + 1 }.takesJump i = p.takesJump i := by
  cases i <;> rfl

/-- What is no jump that is taken leads behind itself. -/
theorem ip_execute_of_not_takesJump (h : p.takesJump i = false) (bus : Bus) :
    (p.execute bus i).1.ip = p.ip + UInt32.ofNat i.width := by
  cases i with
  | jumpIfLess d =>
    have hless : ¬ p.pop.2.pop.1.toInt32 < p.pop.1.toInt32 := of_decide_eq_false h
    simp only [execute, if_neg hless]
    rfl
  | _ => rfl

/-- Only a halt halts. -/
theorem halted_execute (hi : i ≠ .halt) (p : Processor) (bus : Bus) :
    (p.execute bus i).1.halted = p.halted := by
  cases i with
  | halt => exact absurd rfl hi
  | jumpIfLess d =>
    simp only [execute]
    split <;> rfl
  | _ => rfl

end Processor

/-! ## 4. Runs -/

/-- The rows of a listing up to the first halt, which is included. -/
def Instruction.throughHalt : List (Nat × Instruction) → List (Nat × Instruction)
  | [] => []
  | row :: rows => if row.2 = .halt then [row] else row :: throughHalt rows

namespace Machine

open Instruction

variable {map : AddressMap} {program : List UInt8} {m : Machine} {i : Instruction} {n : Nat}

/-- What a machine executes in its next steps: each instruction, with its address. -/
def executed (m : Machine) (n : Nat) : List (Nat × Instruction) :=
  (List.range n).filterMap fun k =>
    (m.after k).step.1.map fun i => ((m.after k).processor.ip.toNat, i)

/-- A machine whose next step takes no jump and writes nothing to RAM. -/
structure Quiet (map : AddressMap) (m : Machine) : Prop where
  straight : m.step.1.any m.processor.takesJump = false
  behind_ram : ∀ a w, .write a w ∈ m.traffic → ¬ map.InRam a

theorem executed_succ (h : m.step.1 = some i) (n : Nat) :
    m.executed (n + 1) = (m.processor.ip.toNat, i) :: m.step.2.executed n := by
  have hfirst : (m.after 0).step.1 = some i := h
  simp only [executed, List.range_succ_eq_map, List.filterMap_cons, hfirst, Option.map_some,
    List.filterMap_map, Function.comp_def, after_succ]
  rfl

theorem executed_of_halted (h : m.processor.halted = true) (n : Nat) : m.executed n = [] := by
  rw [executed, List.filterMap_eq_nil_iff]
  intro k _
  rw [after_of_halted h, step_of_halted h]
  rfl

/-- **One step**, in front of an instruction in RAM. -/
theorem step_of_carries (hfits : map.Fits program) (hcarries : m.bus.Carries map program)
    (hrunning : m.processor.halted = false) (hip : m.processor.ip.toNat < map.ramSize)
    (hi : decode (program.drop m.processor.ip.toNat) = i) :
    m.step.1 = some i ∧ m.step.2.processor =
      (Processor.execute { m.processor with cycles := m.processor.cycles + 1 } m.bus i).1 := by
  have hcycle := Processor.cycle_of_carries hfits hcarries hrunning hip
  rw [hi] at hcycle
  simp only [step, hcycle, and_self]

/-- A step leads behind its instruction if it takes no jump. -/
theorem toNat_ip_step (hfits : map.Fits program) (hcarries : m.bus.Carries map program)
    (hrunning : m.processor.halted = false) (hquiet : m.Quiet map)
    (hi : decode (program.drop m.processor.ip.toNat) = i)
    (hnext : m.processor.ip.toNat + i.width < map.ramSize) :
    m.step.2.processor.ip.toNat = m.processor.ip.toNat + i.width := by
  have hip : m.processor.ip.toNat < map.ramSize := Nat.lt_of_le_of_lt (Nat.le_add_right _ _) hnext
  obtain ⟨hstep, hprocessor⟩ := step_of_carries hfits hcarries hrunning hip hi
  have hstraight := hquiet.straight
  rw [hstep, Option.any_some] at hstraight
  have hexecute := Processor.ip_execute_of_not_takesJump
    (p := { m.processor with cycles := m.processor.cycles + 1 })
    ((Processor.takesJump_count _ i).trans hstraight) m.bus
  rw [hprocessor, hexecute]
  exact Processor.toNat_next rfl (Nat.lt_of_lt_of_le hnext (Nat.le_succ_of_le hfits.size))

/-- A quiet step keeps the program in RAM. -/
theorem carries_step (h : m.bus.Carries map program) (hquiet : m.Quiet map) :
    m.step.2.bus.Carries map program := by
  refine Processor.cycle_preserves (P := fun bus : Bus => bus.Carries map program) h ?_ ?_
  · intro bus a hbus
    exact Bus.carries_read hbus a
  · intro bus a w hmem hbus
    exact Bus.carries_write hbus (hquiet.behind_ram a w hmem) w

/-- **A quiet run executes rows that list what lies behind `ip`**, as long as there are any. -/
theorem executed_of_lists (hfits : map.Fits program) {start : Nat} {bytes : List UInt8}
    {rows : List (Nat × Instruction)} (hlists : Lists start bytes rows)
    (hbytes : bytes = program.drop start) (hcarries : m.bus.Carries map program)
    (hrunning : m.processor.halted = false)
    (hip : 0 < bytes.length → m.processor.ip.toNat = start)
    (hquiet : ∀ k < n, (m.after k).Quiet map) :
    (m.executed n).take rows.length = (throughHalt rows).take n := by
  induction hlists generalizing m n with
  | nil => rw [List.length_nil, List.take_zero, throughHalt, List.take_nil]
  | @cons start bytes rows i hlength hi hrest ih =>
    cases n with
    | zero => rw [List.take_zero, executed, List.range_zero, List.filterMap_nil, List.take_nil]
    | succ n =>
      obtain rfl := hip hlength
      have hinside : m.processor.ip.toNat + bytes.length = program.length := by
        rw [hbytes, List.length_drop] at hlength ⊢
        omega
      have hroom := hfits.room
      have hnow := hquiet 0 (Nat.zero_lt_succ n)
      rw [hbytes] at hi
      obtain ⟨hstep, hprocessor⟩ := step_of_carries hfits hcarries hrunning (by omega) hi
      rw [executed_succ hstep, List.length_cons, List.take_succ_cons, throughHalt]
      -- A halt is the last instruction of both, whatever rows the listing has behind it.
      by_cases hhalt : i = .halt
      · have hstopped : m.step.2.processor.halted = true := by
          rw [hprocessor, hhalt]
          rfl
        rw [if_pos hhalt, executed_of_halted hstopped, List.take_nil, List.take_succ_cons,
          List.take_nil]
      · rw [if_neg hhalt, List.take_succ_cons]
        refine congrArg (List.cons _) (ih ?_ (carries_step hcarries hnow) ?_ ?_ ?_)
        · rw [hbytes, List.drop_drop]
        · rw [hprocessor, Processor.halted_execute hhalt]
          exact hrunning
        · intro hlater
          rw [List.length_drop] at hlater
          exact toNat_ip_step hfits hcarries hrunning hnow hi (by omega)
        · intro k hk
          rw [← after_succ]
          exact hquiet (k + 1) (Nat.succ_lt_succ hk)

/-- **Programs run as they are listed.**  Take any bytes as a program, loaded into a new machine
whose RAM has room for them and lies in front of an address at which no device answers.

* A cycle at any address of RAM carries out the instruction that is decoded from the bytes of the
  program from there on, which is a halt where they have ended.
* Steps from power-on that take no jump and write nothing to RAM execute the rows of the listing, in
  their order and with their addresses, up to the first halt or for as long as there are rows. -/
theorem runs_as_listed (hfits : map.Fits program) (display : Display) (noise : Noise) :
    let m := ((create map display noise).load program).2
    (∀ p : Processor, p.halted = false → p.ip.toNat < map.ramSize →
      let i := decode (program.drop p.ip.toNat)
      p.cycle m.bus = (some i, Processor.execute { p with cycles := p.cycles + 1 } m.bus i) ∧
        (program.length ≤ p.ip.toNat → i = .halt)) ∧
      ∀ n, (∀ k < n, (m.after k).Quiet map) →
        (m.executed n).take (listing program).length = (throughHalt (listing program)).take n := by
  intro m
  have hcarries : m.bus.Carries map program := Bus.carries_load map program display noise
  constructor
  · intro p hrunning hip i
    refine ⟨Processor.cycle_of_carries hfits hcarries hrunning hip, fun hend => ?_⟩
    have hnothing : program.drop p.ip.toNat = [] := List.drop_of_length_le hend
    simp only [i, hnothing]
    rfl
  · intro n hquiet
    exact executed_of_lists hfits (lists_listingFrom 0 program) rfl hcarries rfl (fun _ => rfl)
      hquiet

/-- A program that fills RAM, with a push in its last byte: all four bytes of the number lie behind
RAM. -/
theorem runs_as_listed_of_straddling_push :
    let map : AddressMap := ⟨6, 0x10000, 0x50000, 64⟩
    let program : List UInt8 := [2, 0, 0, 0, 7, 2]
    let m := ((create map (Display.dark 64) (Noise.counting 0 1)).load program).2
    map.Fits program ∧ (∀ k < 2, (m.after k).Quiet map) ∧
      ({ Processor.initial with ip := 5 }.cycle m.bus).1 = some (.pushInt 0) ∧
      (m.executed 2).take 2 = [(0, .pushInt 7), (5, .pushInt 0)] := by
  intro map program m
  have hfits : map.Fits program := ⟨by decide, by decide, by decide, by decide⟩
  have hstraight : ∀ k < 2, (m.after k).step.1.any (m.after k).processor.takesJump = false := by
    decide +kernel
  have hreads : ∀ k < 2, ∀ t ∈ (m.after k).traffic, t.spares 6 = true := by
    decide +kernel
  have hquiet : ∀ k < 2, (m.after k).Quiet map := by
    refine fun k hk => ⟨hstraight k hk, fun a w hmem hram => ?_⟩
    have hbehind : 6 < a.toNat := of_decide_eq_true (hreads k hk _ hmem)
    have hlast : a.toNat ≤ 5 := UInt32.le_iff_toNat_le.mp hram.2
    omega
  have hfirst : decode [2, 0, 0, 0, 7, 2] = .pushInt 7 := by decide
  have hlast : decode [2] = .pushInt 0 := by decide
  have hlisting : listing program = [(0, .pushInt 7), (5, .pushInt 0)] := by
    simp [listing, listingFrom, program, hfirst, hlast, width]
  obtain ⟨hcycles, hruns⟩ := runs_as_listed hfits (Display.dark 64) (Noise.counting 0 1)
  have hcycle := congrArg Prod.fst (hcycles { Processor.initial with ip := 5 } rfl (by decide)).1
  have hrun := hruns 2 hquiet
  rw [hlisting] at hrun
  exact ⟨hfits, hquiet, hcycle.trans (congrArg some hlast), hrun⟩

end Machine

end Ledboard
