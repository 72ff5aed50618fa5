/-
# Starting the board

At power-on the display is made dark and flushed once.  RAM then gets a program: the default
program if one is set and can be used, else what is in the program store, else nothing.  A
default program whose path has the extension `asm` is source text and is assembled first.
Whatever cannot be used is reported and leaves no trace.
-/
import Ledboard.Assembly.Program
import Ledboard.Instruction.Listing
import Ledboard.Log
import Ledboard.Machine
import Ledboard.ProgramStore
import Ledboard.Settings
import Ledboard.Text.Utf8

namespace Ledboard

/-- Why the text of a file cannot be had. -/
inductive TextError where
  | file (cause : FileError)
  /-- the file holds something else than UTF-8 -/
  | notText
  deriving DecidableEq, Repr

/-- The wording of a reason. -/
def TextError.message : TextError → String
  | .file cause => cause.message
  | .notText => "stream did not contain valid UTF-8"

/-- The text of a file. -/
def FileTree.readText (files : FileTree) (path : String) : Except TextError String :=
  match files.read path with
  | .error cause => .error (.file cause)
  | .ok bytes =>
    match Text.textOf? bytes with
    | some text => .ok text
    | none => .error .notText

/-- Why the default program cannot be used. -/
inductive ProgramError where
  | unreadable (path : String) (cause : TextError)
  | notAssembled (path : String) (cause : Assembly.AssemblyError)
  deriving DecidableEq, Repr

/-- The wording of a reason. -/
def ProgramError.message : ProgramError → String
  | .unreadable path cause => "failed to read " ++ path ++ ": " ++ cause.message
  | .notAssembled path cause => "failed to assemble " ++ path ++ ": " ++ cause.message

/-- Where the program in RAM came from, and how many of its bytes fitted. -/
inductive BootImage where
  | default (path : String) (bytes : Nat)
  | store (bytes : Nat)
  | empty
  deriving DecidableEq, Repr

/-- The written form of an image. -/
def BootImage.describe : BootImage → String
  | .default path bytes =>
    "Default \x7b path: " ++ Text.quoted path ++ ", bytes: " ++ Text.decimal bytes ++ " \x7d"
  | .store bytes => "Store \x7b bytes: " ++ Text.decimal bytes ++ " \x7d"
  | .empty => "Empty"

namespace Boot

/-- The part of the board that these reports are about. -/
def target : String := "skc_firmware::runtime"

/-! ## 1. Programs -/

/-- The bytes of a default program. -/
def defaultProgram (files : FileTree) (path : String) : Except ProgramError (List UInt8) :=
  if FileTree.extension? path = some "asm" then
    match files.readText path with
    | .error cause => .error (.unreadable path cause)
    | .ok source =>
      match Assembly.assemble source with
      | .error cause => .error (.notAssembled path cause)
      | .ok program => .ok program.bytes
  else (files.read path).mapError (fun cause => .unreadable path (.file cause))

/-- The report of a listing, one event for each instruction. -/
def listingEvents (program : List UInt8) : List Log.Event :=
  (Instruction.listing program).map fun (address, i) =>
    ⟨.trace, "skc::boot", i.text, [("addr", Text.decimal address)]⟩

/-- What loading did: the image, the machine with it, and the reports. -/
structure Loaded where
  image : BootImage
  machine : Machine
  events : List Log.Event

/-- Loads what is in the program store. -/
def loadStore (m : Machine) (files : FileTree) (store : ProgramStore) : Loaded :=
  match store.load files with
  | .error cause => ⟨.empty, m, [⟨.warn, target, "no program loaded: " ++ cause.message, []⟩]⟩
  | .ok program =>
    let (bytes, m) := m.load program
    let truncated : List Log.Event :=
      if bytes < program.length then
        [⟨.warn, target, "stored program truncated to RAM size",
          [("stored", Text.decimal program.length), ("bytes", Text.decimal bytes)]⟩]
      else []
    ⟨.store bytes, m, listingEvents program ++ truncated⟩

/-- Loads the default program, if there is one, or else what is in the program store. -/
def loadRam (m : Machine) (files : FileTree) (default : Option String) (store : ProgramStore) :
    Loaded :=
  match default with
  | none => loadStore m files store
  | some path =>
    match defaultProgram files path with
    | .ok program =>
      let (bytes, m) := m.load program
      ⟨.default path bytes, m, listingEvents program⟩
    | .error cause =>
      let stored := loadStore m files store
      { stored with
        events := ⟨.warn, target,
          "default program unusable, using program store: " ++ cause.message, []⟩
            :: stored.events }

/-! ## 2. Power-on -/

/-- The display after power-on. -/
def display (leds : Nat) : Display := ((Display.dark leds).fill Rgb.off).flush

/-- The machine after power-on, before RAM is loaded. -/
def machine (s : Settings) (noise : Noise) : Machine :=
  Machine.create s.map (display s.map.ledCount) noise

/-- Starts the board. -/
def run (s : Settings) (noise : Noise) (files : FileTree) : Loaded :=
  let loaded := loadRam (machine s noise) files s.defaultProgram ⟨s.programStore⟩
  { loaded with
    events := loaded.events ++ [⟨.info, target, "booted",
      [("boot_image", loaded.image.describe),
        ("store", s.programStore),
        ("bus", loaded.machine.bus.describe)]⟩] }

end Boot

end Ledboard
