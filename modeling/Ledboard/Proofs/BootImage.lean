/-
# What the board starts with

RAM gets one program at the start: the default program if there is one that can be used, else what
the program store holds, else nothing.  Much can go wrong with a default program: its file may be
missing, hold something else than text, or text that is no program.  None of this leaves a trace in
the machine, and the board starts as if no default program were set (`falls_back_cleanly`).

* **Default programs** (`Usable`, `Unusable`).  What a default program has to be like, said without
  the order in which the faults are looked for (`defaultProgram_eq_ok_iff`,
  `exists_error_iff_unusable`).
* **Sources** (`Chosen`).  Which of the three sources gives the program; there always is one
  (`exists_chosen`).
* **Loading** (`load_create`).  A program that is loaded into a new machine changes its RAM and
  nothing else.
-/
import Ledboard.Boot
import Ledboard.Proofs.LedWords
import Ledboard.Proofs.Outcome
import Ledboard.Proofs.RamContents

namespace Ledboard

/-! ## 1. Default programs -/

/-- The program of a default path that can be used: the bytes of the file or, if the path says that
the file is source, what its text is assembled into. -/
inductive Usable (files : FileTree) (path : String) : List UInt8 → Prop where
  | raw {program : List UInt8} (hpath : FileTree.extension? path ≠ some "asm")
      (h : files.read path = .ok program) : Usable files path program
  | assembled {source : String} {p : Assembly.Program}
      (hpath : FileTree.extension? path = some "asm")
      (h : files.read path = .ok (Text.bytesOf source)) (hp : Assembly.assemble source = .ok p) :
      Usable files path p.bytes

/-- What can be wrong with a default path. -/
inductive Unusable (files : FileTree) (path : String) : Prop where
  | missing {cause : FileError} (h : files.read path = .error cause)
  | notText {bytes : List UInt8} (hpath : FileTree.extension? path = some "asm")
      (h : files.read path = .ok bytes) (hbytes : ∀ source, Text.bytesOf source ≠ bytes)
  | notAssembled {source : String} {cause : Assembly.AssemblyError}
      (hpath : FileTree.extension? path = some "asm")
      (h : files.read path = .ok (Text.bytesOf source))
      (hcause : Assembly.assemble source = .error cause)

variable {files : FileTree} {path : String} {program : List UInt8}

/-- The text of a file is what its bytes encode. -/
theorem FileTree.readText_eq_ok_iff {source : String} :
    files.readText path = .ok source ↔ files.read path = .ok (Text.bytesOf source) := by
  unfold readText
  constructor
  · intro h
    split at h
    · exact absurd h (by simp)
    · rename_i bytes hread
      split at h
      · rename_i text htext
        obtain rfl := Except.ok.inj h
        rw [hread, Text.bytesOf_of_textOf? htext]
      · exact absurd h (by simp)
  · intro h
    simp only [h, Text.textOf?_bytesOf]

/-- A file has no text if it cannot be read or its bytes encode none. -/
theorem FileTree.readText_eq_error {cause : TextError} (h : files.readText path = .error cause) :
    (∃ cause, files.read path = .error cause) ∨
      ∃ bytes, files.read path = .ok bytes ∧ ∀ source, Text.bytesOf source ≠ bytes := by
  unfold readText at h
  split at h
  · rename_i cause hread
    exact Or.inl ⟨cause, hread⟩
  · rename_i bytes hread
    split at h
    · exact absurd h (by simp)
    · rename_i hnone
      refine Or.inr ⟨bytes, hread, ?_⟩
      rintro source rfl
      rw [Text.textOf?_bytesOf] at hnone
      exact absurd hnone (by simp)

namespace Boot

/-- **A default program is used exactly if it can be.** -/
theorem defaultProgram_eq_ok_iff :
    defaultProgram files path = .ok program ↔ Usable files path program := by
  constructor
  · intro h
    unfold defaultProgram at h
    split at h
    · rename_i hpath
      split at h
      · exact absurd h (by simp)
      · rename_i source hsource
        split at h
        · exact absurd h (by simp)
        · rename_i p hp
          obtain rfl := Except.ok.inj h
          exact .assembled hpath (FileTree.readText_eq_ok_iff.mp hsource) hp
    · rename_i hpath
      exact .raw hpath (mapError_eq_ok_iff.mp h)
  · intro h
    unfold defaultProgram
    cases h with
    | raw hpath h =>
      rw [if_neg hpath]
      exact mapError_eq_ok_iff.mpr h
    | assembled hpath h hp =>
      rw [if_pos hpath]
      simp only [FileTree.readText_eq_ok_iff.mpr h, hp]

/-- A default program that can be used has no fault. -/
theorem not_unusable (h : Usable files path program) : ¬ Unusable files path := by
  rintro (⟨hread⟩ | ⟨hsource, hread, hbytes⟩ | ⟨hsource, hread, hcause⟩)
  · cases h with
    | raw _ h => exact absurd (h.symm.trans hread) (by simp)
    | assembled _ h _ => exact absurd (h.symm.trans hread) (by simp)
  · cases h with
    | raw hpath _ => exact hpath hsource
    | assembled _ h _ => exact hbytes _ (Except.ok.inj (h.symm.trans hread))
  · cases h with
    | raw hpath _ => exact hpath hsource
    | assembled _ h hp =>
      have hsame := Except.ok.inj (h.symm.trans hread)
      have htext := congrArg Text.textOf? hsame
      rw [Text.textOf?_bytesOf, Text.textOf?_bytesOf, Option.some.injEq] at htext
      rw [htext, hcause] at hp
      exact absurd hp (by simp)

/-- **It is refused exactly if something is wrong with it.** -/
theorem exists_error_iff_unusable :
    (∃ cause, defaultProgram files path = .error cause) ↔ Unusable files path := by
  constructor
  · rintro ⟨cause, h⟩
    unfold defaultProgram at h
    split at h
    · rename_i hpath
      split at h
      · rename_i cause hsource
        rcases FileTree.readText_eq_error hsource with ⟨cause, hread⟩ | ⟨bytes, hread, hbytes⟩
        · exact .missing hread
        · exact .notText hpath hread hbytes
      · rename_i source hsource
        split at h
        · rename_i cause hcause
          exact .notAssembled hpath (FileTree.readText_eq_ok_iff.mp hsource) hcause
        · exact absurd h (by simp)
    · obtain ⟨cause, hread, -⟩ := mapError_eq_error_iff.mp h
      exact .missing hread
  · intro h
    cases hdefault : defaultProgram files path with
    | error cause => exact ⟨cause, rfl⟩
    | ok program => exact absurd h (not_unusable (defaultProgram_eq_ok_iff.mp hdefault))

/-! ## 2. Where the program comes from -/

/-- The source of the program in RAM: its bytes, and the image that names it with a count. -/
inductive Chosen (files : FileTree) (default : Option String) (store : ProgramStore) :
    List UInt8 → (Nat → BootImage) → Prop where
  | default {path : String} {program : List UInt8} (hpath : default = some path)
      (h : Usable files path program) : Chosen files default store program (.default path)
  | store {program : List UInt8} (hno : ∀ path, default = some path → Unusable files path)
      (h : files.read store.path = .ok program) : Chosen files default store program .store
  | nothing {cause : FileError} (hno : ∀ path, default = some path → Unusable files path)
      (h : files.read store.path = .error cause) :
      Chosen files default store [] (fun _ => .empty)

variable {default : Option String} {store : ProgramStore} {image : Nat → BootImage}

/-- A default program can be used, or something is wrong with it, or there is none. -/
theorem exists_usable_or_unusable (files : FileTree) (default : Option String) :
    (∃ path program, default = some path ∧ Usable files path program) ∨
      ∀ path, default = some path → Unusable files path := by
  cases default with
  | none => exact Or.inr fun path h => absurd h (by simp)
  | some path =>
    cases h : defaultProgram files path with
    | ok program => exact Or.inl ⟨path, program, rfl, defaultProgram_eq_ok_iff.mp h⟩
    | error cause =>
      refine Or.inr fun other hother => ?_
      obtain rfl := Option.some.inj hother
      exact exists_error_iff_unusable.mp ⟨cause, h⟩

theorem exists_chosen (files : FileTree) (default : Option String) (store : ProgramStore) :
    ∃ program image, Chosen files default store program image := by
  rcases exists_usable_or_unusable files default with ⟨path, program, hpath, h⟩ | hno
  · exact ⟨program, .default path, .default hpath h⟩
  · cases h : files.read store.path with
    | ok program => exact ⟨program, .store, .store hno h⟩
    | error cause => exact ⟨[], fun _ => .empty, .nothing hno h⟩

/-! ## 3. Loading -/

/-- A new machine with some RAM in place of its own. -/
def withRam (map : AddressMap) (display : Display) (noise : Noise) (ram : Ram) : Machine :=
  ⟨Processor.initial, ⟨map.windows ram noise, #[display]⟩, map⟩

/-- **Loading a program into a new machine changes its RAM and nothing else.** -/
theorem load_create (map : AddressMap) (display : Display) (noise : Noise)
    (program : List UInt8) :
    (Machine.create map display noise).load program =
      (min program.length (map.ramSize + 3),
        withRam map display noise ((Ram.ofSize map.ramSize).load 0 program)) := rfl

/-- **A default program that cannot be used leaves a report behind**, and nothing else. -/
theorem loadRam_of_unusable (h : Unusable files path) (m : Machine) (store : ProgramStore) :
    let loaded := loadRam m files (some path) store
    let without := loadRam m files none store
    loaded.image = without.image ∧ loaded.machine = without.machine ∧
      ∃ cause : ProgramError, loaded.events =
        ⟨.warn, target, "default program unusable, using program store: " ++ cause.message, []⟩ ::
          without.events := by
  obtain ⟨cause, hcause⟩ := exists_error_iff_unusable.mpr h
  simp only [loadRam, hcause, true_and]
  exact ⟨cause, rfl⟩

/-- Where no default program can be used, the store is loaded. -/
theorem loadRam_of_no_default (hno : ∀ path, default = some path → Unusable files path)
    (m : Machine) (store : ProgramStore) :
    (loadRam m files default store).image = (loadStore m files store).image ∧
      (loadRam m files default store).machine = (loadStore m files store).machine := by
  cases default with
  | none => exact ⟨rfl, rfl⟩
  | some path =>
    obtain ⟨himage, hmachine, -⟩ := loadRam_of_unusable (hno path rfl) m store
    exact ⟨himage, hmachine⟩

/-- Loading copies the program of the source that was chosen. -/
theorem loadRam_of_chosen (h : Chosen files default store program image) (map : AddressMap)
    (display : Display) (noise : Noise) :
    let loaded := loadRam (Machine.create map display noise) files default store
    loaded.image = image (min program.length (map.ramSize + 3)) ∧
      loaded.machine = withRam map display noise ((Ram.ofSize map.ramSize).load 0 program) := by
  cases h with
  | default hpath h =>
    subst hpath
    simp only [loadRam, defaultProgram_eq_ok_iff.mpr h, load_create, and_self]
  | store hno h =>
    obtain ⟨himage, hmachine⟩ := loadRam_of_no_default hno (Machine.create map display noise) store
    have hload : store.load files = .ok program := mapError_eq_ok_iff.mpr h
    simp only [himage, hmachine, loadStore, hload, load_create, and_self]
  | nothing hno h =>
    obtain ⟨himage, hmachine⟩ := loadRam_of_no_default hno (Machine.create map display noise) store
    have hload : store.load files = .error _ := mapError_eq_error_iff.mpr ⟨_, h, rfl⟩
    simp only [himage, hmachine, loadStore, hload, true_and]
    rfl

/-! ## 4. The whole -/

/-- **The board falls back cleanly.**  For every map, all files and every choice of a default
program:

* the program in RAM comes from one source, and the image names it with the number of bytes that
  were copied;
* RAM holds the program, cut to its buffer and followed by zeros, and nothing else of the machine
  differs from a new one; the files are only read;
* a default program with which something is wrong leaves a report, but no trace in the machine. -/
theorem falls_back_cleanly (map : AddressMap) (display : Display) (noise : Noise)
    (files : FileTree) (default : Option String) (store : ProgramStore) :
    let fresh := Machine.create map display noise
    let loaded := loadRam fresh files default store
    (∃ program image, Chosen files default store program image) ∧
      (∀ program image, Chosen files default store program image →
        loaded.image = image (min program.length (map.ramSize + 3)) ∧
        ∃ ram, loaded.machine =
            { fresh with bus := { fresh.bus with bindings := map.windows ram noise } } ∧
          ram.size = map.ramSize ∧
          ram.bytes = program.take (map.ramSize + 3) ++
            List.replicate (map.ramSize + 3 - program.length) 0) ∧
      ∀ path, default = some path → Unusable files path →
        let without := loadRam fresh files none store
        loaded.image = without.image ∧ loaded.machine = without.machine ∧
          ∃ report, loaded.events = report :: without.events := by
  intro fresh loaded
  refine ⟨exists_chosen files default store, ?_, ?_⟩
  · intro program image hchosen
    obtain ⟨himage, hmachine⟩ := loadRam_of_chosen hchosen map display noise
    exact ⟨himage, _, hmachine, rfl, Ram.bytes_load_ofSize map.ramSize program⟩
  · rintro path rfl hunusable
    obtain ⟨himage, hmachine, cause, hevents⟩ := loadRam_of_unusable hunusable fresh store
    exact ⟨himage, hmachine, _, hevents⟩

/-- A default program that is no program, and a store of more bytes than RAM has room for. -/
theorem falls_back_cleanly_of_broken_source :
    let files := (FileTree.empty.put "boot.asm" (Text.bytesOf "push")).put "ram.bin"
      [3, 1, 3, 2, 3, 3, 3, 4]
    let loaded := loadRam (Machine.create ⟨4, 0x10000, 0x50000, 64⟩ (Display.dark 64)
      (Noise.counting 0 1)) files (some "boot.asm") ⟨"ram.bin"⟩
    (Unusable files "boot.asm" ∧
        Chosen files (some "boot.asm") ⟨"ram.bin"⟩ [3, 1, 3, 2, 3, 3, 3, 4] .store) ∧
      loaded.image = .store 7 ∧
      ∃ ram : Ram, loaded.machine.bus.ram? = some ram ∧ ram.bytes = [3, 1, 3, 2, 3, 3, 3] := by
  intro files loaded
  have hcause : ∃ cause, Assembly.assemble "push" = .error cause := by
    cases h : Assembly.assemble "push" with
    | error cause => exact ⟨cause, rfl⟩
    | ok p =>
      have hnone : (Assembly.assemble "push").toOption = none := by decide +kernel
      rw [h] at hnone
      exact absurd hnone (by simp [Except.toOption])
  obtain ⟨cause, hcause⟩ := hcause
  have hunusable : Unusable files "boot.asm" := .notAssembled rfl rfl hcause
  have hchosen : Chosen files (some "boot.asm") ⟨"ram.bin"⟩ [3, 1, 3, 2, 3, 3, 3, 4] .store := by
    refine .store ?_ rfl
    rintro path ⟨⟩
    exact hunusable
  obtain ⟨-, hloaded, -⟩ := falls_back_cleanly ⟨4, 0x10000, 0x50000, 64⟩ (Display.dark 64)
    (Noise.counting 0 1) files (some "boot.asm") ⟨"ram.bin"⟩
  obtain ⟨himage, ram, hmachine, -, hbytes⟩ := hloaded _ _ hchosen
  refine ⟨⟨hunusable, hchosen⟩, himage, ram, ?_, hbytes⟩
  rw [hmachine]
  rfl

end Boot

end Ledboard
