/-
# Programs in RAM

The processor finds its program in RAM, through the bus.  RAM is the first device on the board's
bus and starts at address 0, so as far as it reaches it answers alone, and the low addresses of
the bus are the low bytes of RAM.  `Bus.Begins` says that this is so and which bytes lie there.

* Loading a program into a new machine establishes it, with a zero behind the program
  (`begins_load`).
* Reads keep it, and so do writes behind the code (`begins_read`, `begins_write`).
* While it holds, a fetch at a place where an instruction lies finds this instruction
  (`fetch_of_begins`).  A fetch reads four bytes, and four more behind the opcode of a 32-bit
  immediate; what it reads beyond the instruction may lie behind the code and does not matter.
-/
import Ledboard.Proofs.Encoding
import Ledboard.Proofs.RamContents
import Ledboard.Proofs.Traffic
import Mathlib.Data.List.GetD

namespace Ledboard

/-! ## 1. Code at the start of the bus -/

/-- RAM is the first device on the bus, starts at address 0 and begins with some code, all of
which it answers for. -/
def Bus.Begins (bus : Bus) (code : List UInt8) : Prop :=
  ∃ last ram rest, bus.bindings = ⟨0, last, .ram ram⟩ :: rest ∧ code.length ≤ last.toNat + 1 ∧
    ∀ i < code.length, ram.byteAt i = code.getD i 0

theorem Binding.holds_from_zero {last address : UInt32} {device : Device} :
    (⟨0, last, device⟩ : Binding).holds address = true ↔ address.toNat ≤ last.toNat := by
  simp [holds, UInt32.le_iff_toNat_le]

theorem Binding.offset_from_zero {last address : UInt32} {device : Device} :
    (⟨0, last, device⟩ : Binding).offset address = address.toNat := by
  simp [offset]

namespace Bus

variable {bus : Bus} {code : List UInt8}

/-- A word that is read inside the code shows the code, as far as it goes. -/
theorem getD_read (h : bus.Begins code) {address : UInt32} {k : Nat} (hk : k < 4)
    (hcode : address.toNat + k < code.length) :
    (bus.read address).1.toList.getD k 0 = code.getD (address.toNat + k) 0 := by
  obtain ⟨bindings, displays⟩ := bus
  obtain ⟨last, ram, rest, rfl, hlast, hbytes⟩ := h
  have hholds : (⟨0, last, .ram ram⟩ : Binding).holds address = true :=
    Binding.holds_from_zero.mpr (by omega)
  have hread : (Bus.read ⟨⟨0, last, .ram ram⟩ :: rest, displays⟩ address).1 =
      ram.read address.toNat := by
    simp only [Bus.read, Binding.readFirst, hholds, if_true, Device.read, Binding.offset_from_zero]
  rw [hread, ← hbytes _ hcode]
  have hcases : k = 0 ∨ k = 1 ∨ k = 2 ∨ k = 3 := by omega
  rcases hcases with rfl | rfl | rfl | rfl <;> rfl

/-- Reading changes no RAM. -/
theorem begins_read (h : bus.Begins code) (address : UInt32) :
    (bus.read address).2.Begins code := by
  obtain ⟨bindings, displays⟩ := bus
  obtain ⟨last, ram, rest, rfl, hlast, hbytes⟩ := h
  simp only [Bus.read, Binding.readFirst]
  split
  · exact ⟨last, ram, rest, rfl, hlast, hbytes⟩
  · exact ⟨last, ram, _, rfl, hlast, hbytes⟩

/-- A write behind the code does not change the code. -/
theorem begins_write (h : bus.Begins code) {address : UInt32} (word : Word)
    (ha : code.length ≤ address.toNat) : (bus.write address word).Begins code := by
  obtain ⟨bindings, displays⟩ := bus
  obtain ⟨last, ram, rest, rfl, hlast, hbytes⟩ := h
  simp only [Bus.write, Binding.writeFirst, Binding.offset_from_zero]
  split
  · refine ⟨last, ram.write address.toNat word, rest, rfl, hlast, ?_⟩
    intro i hi
    rw [Ram.byteAt_write_of_lt ram word (by omega), hbytes i hi]
  · exact ⟨last, ram, _, rfl, hlast, hbytes⟩

end Bus

/-! ## 2. Fetching -/

namespace Processor

open Addressable Instruction

/-- Only a number on the way to the stack starts with its opcode, and only it has more than four
bytes. -/
theorem opcode_eq_two {i : Instruction} (hi : i.Canonical) :
    i.encode.getD 0 0 = 2 ↔ 4 < i.width := by
  cases i with
  | unknown op =>
    have hop : 8 < op.toNat := hi
    simp only [encode, List.getD_cons_zero, width]
    constructor
    · rintro rfl
      exact absurd hop (by decide)
    · omega
  | pushInt v => exact ⟨fun _ => by simp [width], fun _ => rfl⟩
  | _ => simp [encode, width]

/-- **A fetch finds the instruction that lies at its address.** -/
theorem fetch_of_begins {bus : Bus} {code front back : List UInt8} (h : bus.Begins code)
    {i : Instruction} (hi : i.Canonical) (hcode : code = front ++ (i.encode ++ back)) {ip : UInt32}
    (hip : ip.toNat = front.length) : (fetch bus ip).1 = i := by
  have hwidth : 0 < i.width := i.width_pos
  have hlength : code.length = front.length + (i.width + back.length) := by
    rw [hcode, List.length_append, List.length_append, length_encode]
  have hbyte : ∀ k < i.width, code.getD (front.length + k) 0 = i.encode.getD k 0 := by
    intro k hk
    rw [hcode, List.getD_append_right _ _ _ _ (by omega), Nat.add_sub_cancel_left,
      List.getD_append _ _ _ _ (by rw [length_encode]; exact hk)]
  have hfirst : ∀ k < i.width, k < 4 →
      (readWord bus ip).1.toList.getD k 0 = i.encode.getD k 0 := by
    intro k hk hword
    rw [← hbyte k hk, ← hip]
    exact Bus.getD_read h hword (by omega)
  have hopcode : (readWord bus ip).1.b0 = i.encode.getD 0 0 := hfirst 0 hwidth (by decide)
  unfold fetch
  -- The opcode of a 32-bit immediate makes the fetch read a second word, from `ip + 1`.
  by_cases hlong : (readWord bus ip).1.b0 = 2
  · have hfive : 4 < i.width := (opcode_eq_two hi).mp (hopcode ▸ hlong)
    have hlast : ip.toNat + 1 < 4294967296 := by
      obtain ⟨last, -, -, -, hlast, -⟩ := h
      have := last.toNat_lt
      omega
    have hnext : (ip + 1).toNat = front.length + 1 := by
      rw [UInt32.toNat_add, UInt32.toNat_one, Nat.mod_eq_of_lt hlast, hip]
    simp only [if_pos hlong]
    refine decode_of_agree hi ?_
    intro k hk
    cases k with
    | zero => exact hopcode
    | succ k =>
      have hmax : i.width ≤ 5 := by cases i <;> simp [width]
      rw [← hbyte _ hk, List.getD_cons_succ, Nat.add_comm k 1, ← Nat.add_assoc, ← hnext]
      exact Bus.getD_read (Bus.begins_read h ip) (by omega) (by omega)
  · have hfour : ¬ 4 < i.width := fun hfive => hlong (hopcode ▸ (opcode_eq_two hi).mpr hfive)
    simp only [if_neg hlong]
    refine decode_of_agree hi ?_
    intro k hk
    exact hfirst k hk (by omega)

/-- The bus after a cycle still begins with the code if all writes went behind it. -/
theorem begins_cycle {p : Processor} {bus : Bus} {code : List UInt8} (h : bus.Begins code)
    (hwrite : ∀ a w, .write a w ∈ p.traffic bus → code.length ≤ a.toNat) :
    (p.cycle bus).2.2.Begins code := by
  refine cycle_preserves (P := fun (b : Bus) => b.Begins code) h ?_ ?_
  · intro b a hb
    exact Bus.begins_read hb a
  · intro b a w hmem hb
    exact Bus.begins_write hb w (hwrite a w hmem)

end Processor

/-! ## 3. Loading -/

/-- Code that is the start of a program in a new machine lies at the start of its bus, if RAM has
room for it and is not larger than addresses reach.  Behind the program stand zeros. -/
theorem Machine.begins_load_of_getD {map : AddressMap} {program code : List UInt8}
    (display : Display) (noise : Noise) (hroom : code.length ≤ map.ramSize)
    (hsize : map.ramSize < UInt32.size)
    (hbytes : ∀ i < code.length, program.getD i 0 = code.getD i 0) :
    ((Machine.create map display noise).load program).2.bus.Begins code := by
  refine ⟨map.ramRange.2, (Ram.ofSize map.ramSize).load 0 program, _, rfl, ?_, ?_⟩
  · rw [AddressMap.toNat_ramRange hsize]
    omega
  · intro i hi
    rw [Ram.byteAt_load_ofSize, if_pos (by omega), hbytes i hi]

/-- **A program that is loaded into a new machine** lies at the start of its bus with a zero
behind it, if RAM has room for both and is not larger than addresses reach. -/
theorem Machine.begins_load {map : AddressMap} {program : List UInt8} (display : Display)
    (noise : Noise) (hroom : program.length < map.ramSize) (hsize : map.ramSize < UInt32.size) :
    ((Machine.create map display noise).load program).2.bus.Begins (program ++ [0]) := by
  have hlength : (program ++ [0]).length = program.length + 1 := by simp
  refine Machine.begins_load_of_getD display noise (by omega) hsize ?_
  intro i hi
  by_cases hin : i < program.length
  · rw [List.getD_append _ _ _ _ hin]
  · have hend : i = program.length := by omega
    rw [hend, List.getD_eq_default _ _ (Nat.le_refl _),
      List.getD_append_right _ _ _ _ (Nat.le_refl _), Nat.sub_self]
    rfl

end Ledboard
