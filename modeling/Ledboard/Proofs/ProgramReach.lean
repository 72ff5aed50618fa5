/-
# What the processor can reach of a program

The buffer of RAM is three bytes longer than the range of addresses that RAM answers, and a program
may fill all of it.  The bytes behind the range start no word (`padding_starts_no_word`): a read at
their addresses is not the matter of RAM.  But they are the rest of the words that start at the last
addresses of the range, so the processor reaches them there, as operands or as parts of a word.

So all that is reported as loaded can be reached, and a stored program is reported as truncated
exactly if some of its bytes cannot (`loaded_bytes_are_reachable`).
-/
import Ledboard.Proofs.BootImage
import Ledboard.Proofs.RamHistory

namespace Ledboard

namespace AddressMap

variable {map : AddressMap} {place : Nat}

/-- Whether a place of RAM belongs to a word at an address that RAM answers. -/
def Reachable (map : AddressMap) (place : Nat) : Prop :=
  ∃ (address : UInt32) (k : Nat), k < 4 ∧ address.toNat + k = place ∧ map.InRam address

/-- The address of the word by which a place is reached: the place itself within the range of RAM,
and the last address of the range behind it. -/
def wordOf (map : AddressMap) (place : Nat) : UInt32 := UInt32.ofNat (min place (map.ramSize - 1))

theorem inRam_iff (htop : map.ramSize < UInt32.size) {address : UInt32} :
    map.InRam address ↔ address.toNat ≤ map.ramSize - 1 := by
  rw [InRam, UInt32.le_iff_toNat_le, UInt32.le_iff_toNat_le, toNat_ramRange htop]
  exact and_iff_right (Nat.zero_le _)

theorem toNat_wordOf (htop : map.ramSize < UInt32.size) (place : Nat) :
    (map.wordOf place).toNat = min place (map.ramSize - 1) := by
  rw [wordOf, UInt32.toNat_ofNat_of_lt' (by omega)]

theorem inRam_wordOf (htop : map.ramSize < UInt32.size) (place : Nat) :
    map.InRam (map.wordOf place) := by
  rw [inRam_iff htop, toNat_wordOf htop]
  exact Nat.min_le_right _ _

/-- **The buffer is what can be reached.** -/
theorem reachable_iff (hsize : 1 ≤ map.ramSize) (htop : map.ramSize < UInt32.size) :
    map.Reachable place ↔ place < map.ramSize + 3 := by
  constructor
  · rintro ⟨address, k, hk, rfl, haddress⟩
    rw [inRam_iff htop] at haddress
    omega
  · intro hplace
    refine ⟨map.wordOf place, place - min place (map.ramSize - 1), by omega, ?_,
      inRam_wordOf htop place⟩
    rw [toNat_wordOf htop]
    omega

/-- A program is cut exactly if some of its bytes cannot be reached. -/
theorem exists_unreachable_iff (hsize : 1 ≤ map.ramSize) (htop : map.ramSize < UInt32.size)
    (length : Nat) : (∃ place < length, ¬ map.Reachable place) ↔ map.ramSize + 3 < length := by
  simp only [reachable_iff hsize htop, Nat.not_lt]
  constructor
  · rintro ⟨place, hlength, hplace⟩
    omega
  · intro hlength
    exact ⟨map.ramSize + 3, hlength, Nat.le_refl _⟩

end AddressMap

/-! ## 1. Words of a program -/

namespace Boot

variable {map : AddressMap} {address : UInt32} {program : List UInt8}

/-- Where RAM answers, a new machine with some RAM reads the word of RAM. -/
theorem read_withRam (h : map.InRam address) (display : Display) (noise : Noise) (ram : Ram) :
    ((withRam map display noise ram).bus.read address).1 = ram.read address.toNat := by
  have hoffset : (⟨map.ramRange.1, map.ramRange.2, .ram ram⟩ : Binding).offset address =
      address.toNat := congrArg UInt32.toNat (UInt32.sub_zero address)
  simp only [withRam, AddressMap.windows, Bus.read, Binding.readFirst, AddressMap.holds_ram_iff,
    if_pos h, Device.read, hoffset]

/-- **A byte of a program is found in the word by which its place is reached.** -/
theorem getElem?_read_load (hsize : 1 ≤ map.ramSize) (htop : map.ramSize < UInt32.size)
    (display : Display) (noise : Noise) {place : Nat}
    (hplace : place < min program.length (map.ramSize + 3)) :
    let loaded := (Machine.create map display noise).load program
    (loaded.2.bus.read (map.wordOf place)).1.toList[place - (map.wordOf place).toNat]? =
      program[place]? := by
  intro loaded
  have hword := AddressMap.toNat_wordOf htop place
  have hread : (loaded.2.bus.read (map.wordOf place)).1 =
      ((Ram.ofSize map.ramSize).load 0 program).read (map.wordOf place).toNat :=
    read_withRam (AddressMap.inRam_wordOf htop place) display noise _
  have hsum : (map.wordOf place).toNat + (place - (map.wordOf place).toNat) = place := by omega
  rw [hread, Ram.getElem?_read _ _ (by omega), hsum, Ram.byteAt_load_ofSize]
  have hbuffer : place < map.ramSize + Ram.padding :=
    Nat.lt_of_lt_of_le hplace (Nat.min_le_right _ _)
  have hprogram : place < program.length := Nat.lt_of_lt_of_le hplace (Nat.min_le_left _ _)
  rw [if_pos hbuffer, List.getD_eq_getElem?_getD, List.getElem?_eq_getElem hprogram,
    Option.getD_some]

/-! ## 2. The report of a truncated program -/

/-- The report that a stored program was truncated: how many bytes it has, and how many fitted. -/
def truncationReport (stored bytes : Nat) : Log.Event :=
  ⟨.warn, target, "stored program truncated to RAM size",
    [("stored", Text.decimal stored), ("bytes", Text.decimal bytes)]⟩

theorem notMem_listingEvents (stored bytes : Nat) (program : List UInt8) :
    truncationReport stored bytes ∉ listingEvents program := by
  intro h
  obtain ⟨row, -, hrow⟩ := List.mem_map.mp h
  have hlevel : Log.Level.trace = .warn := congrArg Log.Event.level hrow
  exact absurd hlevel (by decide)

/-- **A stored program is reported as truncated exactly if not all of it fitted**, whether or not
there was a default program that could not be used. -/
theorem truncationReport_mem_iff {files : FileTree} {default : Option String} {store : ProgramStore}
    (hno : ∀ path, default = some path → Unusable files path)
    (h : files.read store.path = .ok program) (m : Machine) :
    truncationReport program.length (m.load program).1 ∈ (loadRam m files default store).events ↔
      (m.load program).1 < program.length := by
  have hstore : truncationReport program.length (m.load program).1 ∈
      (loadRam m files none store).events ↔ (m.load program).1 < program.length := by
    have hload : store.load files = .ok program := mapError_eq_ok_iff.mpr h
    simp only [loadRam, loadStore, hload, List.mem_append, notMem_listingEvents, false_or]
    split
    · rename_i hless
      exact iff_of_true (List.mem_singleton.mpr rfl) hless
    · rename_i hless
      exact iff_of_false List.not_mem_nil hless
  cases default with
  | none => exact hstore
  | some path =>
    obtain ⟨-, -, cause, hevents⟩ := loadRam_of_unusable (hno path rfl) m store
    rw [hevents, List.mem_cons, hstore]
    refine or_iff_right fun hsame => ?_
    exact absurd (congrArg (fun e => e.fields.length) hsame) (Nat.succ_ne_zero 1)

/-! ## 3. The whole -/

/-- A program of one byte more than RAM has addresses fits, since the buffer is longer.  But its last
byte is not the first byte of the word that is read at its place, because RAM does not answer
there. -/
theorem padding_starts_no_word :
    ¬ ∀ (map : AddressMap) (display : Display) (noise : Noise) (program : List UInt8),
        1 ≤ map.ramSize → map.ramSize < UInt32.size →
        let loaded := (Machine.create map display noise).load program
        ∀ i < loaded.1, (loaded.2.bus.read (UInt32.ofNat i)).1.toList[0]? = program[i]? := by
  intro h
  have hlast := h ⟨4, 0x10000, 0x50000, 64⟩ (Display.dark 64) (Noise.counting 0 1) [1, 2, 3, 4, 9]
    (by decide) (by decide) 4 (by decide)
  revert hlast
  decide +kernel

/-- **All that is loaded can be reached.**  For every map with some RAM, of a size that addresses
hold, and every program:

* each byte that is counted as loaded is found in the word by which its place is reached, an address
  that RAM answers;
* within the range of RAM it is the first byte of the word at its place, and behind it one of the
  three others of the last word;
* a stored program is reported as truncated exactly if some of its bytes are not in any word that RAM
  answers for. -/
theorem loaded_bytes_are_reachable {map : AddressMap} (hsize : 1 ≤ map.ramSize)
    (htop : map.ramSize < UInt32.size) (display : Display) (noise : Noise)
    (program : List UInt8) :
    let fresh := Machine.create map display noise
    let loaded := fresh.load program
    (∀ i < loaded.1,
        map.InRam (map.wordOf i) ∧ i < (map.wordOf i).toNat + 4 ∧
        (loaded.2.bus.read (map.wordOf i)).1.toList[i - (map.wordOf i).toNat]? = program[i]?) ∧
      (∀ i < loaded.1, i < map.ramSize →
        (loaded.2.bus.read (UInt32.ofNat i)).1.toList[0]? = program[i]?) ∧
      ∀ files default (store : ProgramStore),
        (∀ path, default = some path → Unusable files path) →
        files.read store.path = .ok program →
        (truncationReport program.length loaded.1 ∈ (loadRam fresh files default store).events ↔
          ∃ i < program.length, ¬ map.Reachable i) := by
  intro fresh loaded
  have hcount : loaded.1 = min program.length (map.ramSize + 3) := rfl
  refine ⟨?_, ?_, ?_⟩
  · intro i hi
    have hword := AddressMap.toNat_wordOf htop i
    exact ⟨AddressMap.inRam_wordOf htop i, by omega,
      getElem?_read_load hsize htop display noise hi⟩
  · intro i hi hrange
    have hread := getElem?_read_load hsize htop display noise hi
    have hword : map.wordOf i = UInt32.ofNat i := by
      rw [AddressMap.wordOf, Nat.min_eq_left (by omega)]
    have hplace : i - (map.wordOf i).toNat = 0 := by
      rw [AddressMap.toNat_wordOf htop]
      omega
    rw [hplace, hword] at hread
    exact hread
  · intro files default store hno hstore
    rw [truncationReport_mem_iff hno hstore, AddressMap.exists_unreachable_iff hsize htop]
    change loaded.1 < program.length ↔ _
    omega

/-- A program that fills the buffer of a RAM of four bytes: its last three bytes are found in the
word at address 3.  With one byte more it is reported as truncated. -/
theorem loaded_bytes_are_reachable_of_padding :
    let map : AddressMap := ⟨4, 0x10000, 0x50000, 64⟩
    let fresh := Machine.create map (Display.dark 64) (Noise.counting 0 1)
    let full : List UInt8 := [1, 2, 3, 4, 5, 6, 7]
    let files := FileTree.empty.put "ram.bin" (full ++ [8])
    (1 ≤ map.ramSize ∧ map.ramSize < UInt32.size) ∧
      (((fresh.load full).2.bus.read (map.wordOf 6)).1.toList[3]? = some 7 ∧
        ((fresh.load full).2.bus.read (UInt32.ofNat 3)).1.toList[0]? = some 4) ∧
      truncationReport 8 7 ∈ (loadRam fresh files none ⟨"ram.bin"⟩).events := by
  intro map fresh full files
  have hsize : 1 ≤ map.ramSize := by decide
  have htop : map.ramSize < UInt32.size := by decide
  obtain ⟨hwords, hrange, -⟩ :=
    loaded_bytes_are_reachable hsize htop (Display.dark 64) (Noise.counting 0 1) full
  obtain ⟨-, -, hreport⟩ :=
    loaded_bytes_are_reachable hsize htop (Display.dark 64) (Noise.counting 0 1) (full ++ [8])
  refine ⟨⟨hsize, htop⟩, ⟨(hwords 6 (by decide)).2.2, hrange 3 (by decide) (by decide)⟩, ?_⟩
  refine (hreport files none ⟨"ram.bin"⟩ (by simp) rfl).mpr ⟨7, by decide, ?_⟩
  rw [AddressMap.reachable_iff hsize htop]
  decide

end Boot

end Ledboard
