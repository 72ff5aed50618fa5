/-
# The bus

The bus hands each transaction to a device.  A *binding* gives a device an inclusive range of
addresses; bindings are tried in the order in which they were connected, and the first whose
range holds the address serves the transaction alone, at the offset from the start of its range.
Where no range holds the address a read gives zeros and a write is dropped.

Displays are shared: a binding names one by its number, so that two windows may show the same
chain, and the chains themselves stand beside the bindings.
-/
import Ledboard.Ram
import Ledboard.Display
import Ledboard.Noise
import Ledboard.AddressMap

namespace Ledboard

/-- What can be bound to a range of addresses. -/
inductive Device where
  /-- memory -/
  | ram (memory : Ram)
  /-- the window of a display, by its number -/
  | display (number : Nat)
  /-- a noise source -/
  | noise (source : Noise)
  deriving DecidableEq

namespace Device

/-- The word for a device in descriptions. -/
def kind : Device → String
  | .ram _ => "ram"
  | .display _ => "display"
  | .noise _ => "noise"

/-- The RAM in a device, if it is one. -/
def ram? : Device → Option Ram
  | .ram memory => some memory
  | _ => none

/-- Reads a word.  Only a noise source changes by it. -/
def read (device : Device) (displays : Array Display) (offset : Nat) : Word × Device :=
  match device with
  | .ram memory => (memory.read offset, .ram memory)
  | .display number => ((displays[number]?.map (·.read offset)).getD Word.zero, .display number)
  | .noise source =>
    let (word, source) := source.read
    (word, .noise source)

/-- Writes a word. -/
def write (device : Device) (displays : Array Display) (offset : Nat) (word : Word) :
    Device × Array Display :=
  match device with
  | .ram memory => (.ram (memory.write offset word), displays)
  | .display number => (.display number, displays.modify number (·.write offset word))
  | .noise source => (.noise source, displays)

end Device

/-- A device and the addresses that it answers. -/
structure Binding where
  first : UInt32
  last : UInt32
  device : Device
  deriving DecidableEq

namespace Binding

/-- Whether an address lies in the range of a binding. -/
def holds (b : Binding) (address : UInt32) : Bool :=
  decide (b.first ≤ address) && decide (address ≤ b.last)

/-- How far into the range of a binding an address lies. -/
def offset (b : Binding) (address : UInt32) : Nat := (address - b.first).toNat

/-- The short form of a binding. -/
def describe (b : Binding) : String :=
  b.device.kind ++ "@" ++ Text.hex b.first.toNat ++ "..=" ++ Text.hex b.last.toNat

/-- Reads from the first binding that holds the address. -/
def readFirst (displays : Array Display) (address : UInt32) :
    List Binding → Word × List Binding
  | [] => (Word.zero, [])
  | b :: rest =>
    if b.holds address then
      let (word, device) := b.device.read displays (b.offset address)
      (word, { b with device := device } :: rest)
    else
      let (word, rest) := readFirst displays address rest
      (word, b :: rest)

/-- Writes to the first binding that holds the address. -/
def writeFirst (displays : Array Display) (address : UInt32) (word : Word) :
    List Binding → List Binding × Array Display
  | [] => ([], displays)
  | b :: rest =>
    if b.holds address then
      let (device, displays) := b.device.write displays (b.offset address) word
      ({ b with device := device } :: rest, displays)
    else
      let (rest, displays) := writeFirst displays address word rest
      (b :: rest, displays)

/-- Copies bytes into the first RAM, from an offset on, and says how many fitted. -/
def loadFirst (offset : Nat) (bytes : List UInt8) : List Binding → Option Nat × List Binding
  | [] => (none, [])
  | ⟨first, last, .ram ram⟩ :: rest =>
    (some (ram.room offset bytes.length), ⟨first, last, .ram (ram.load offset bytes)⟩ :: rest)
  | b :: rest =>
    let (count, rest) := loadFirst offset bytes rest
    (count, b :: rest)

end Binding

/-- The bindings in the order of connection, and the displays that they name. -/
structure Bus where
  bindings : List Binding
  displays : Array Display
  deriving DecidableEq

namespace Bus

/-- A bus without devices. -/
def empty (displays : Array Display) : Bus := ⟨[], displays⟩

/-- Connects one more device, behind all others. -/
def connect (bus : Bus) (device : Device) (first last : UInt32) : Bus :=
  { bus with bindings := bus.bindings ++ [⟨first, last, device⟩] }

/-- The binding that serves an address. -/
def serving? (bus : Bus) (address : UInt32) : Option Binding :=
  bus.bindings.find? (·.holds address)

/-- Reads the word at an address. -/
def read (bus : Bus) (address : UInt32) : Word × Bus :=
  match bus with
  | ⟨bindings, displays⟩ =>
    let (word, bindings) := Binding.readFirst displays address bindings
    (word, ⟨bindings, displays⟩)

/-- Writes the word at an address. -/
def write (bus : Bus) (address : UInt32) (word : Word) : Bus :=
  match bus with
  | ⟨bindings, displays⟩ =>
    let (bindings, displays) := Binding.writeFirst displays address word bindings
    ⟨bindings, displays⟩

/-- The first RAM on the bus, which is where programs are loaded. -/
def ram? (bus : Bus) : Option Ram := bus.bindings.findSome? (·.device.ram?)

/-- Copies bytes into the first RAM.  The count is missing where there is none. -/
def load (bus : Bus) (offset : Nat) (bytes : List UInt8) : Option Nat × Bus :=
  match bus with
  | ⟨bindings, displays⟩ =>
    let (count, bindings) := Binding.loadFirst offset bytes bindings
    (count, ⟨bindings, displays⟩)

/-- How often the displays were flushed, all together. -/
def flushes (bus : Bus) : Nat := bus.displays.foldl (fun n d => n + d.flushes) 0

/-- The short form of a bus: its bindings in order. -/
def describe (bus : Bus) : String :=
  "[" ++ ", ".intercalate (bus.bindings.map Binding.describe) ++ "]"

end Bus

/-- What a processor can run against: it answers reads, which may change it, and takes writes. -/
class Addressable (β : Type) where
  /-- reads the word at an address -/
  readWord : β → UInt32 → Word × β
  /-- writes the word at an address -/
  writeWord : β → UInt32 → Word → β

instance : Addressable Bus := ⟨Bus.read, Bus.write⟩

end Ledboard
