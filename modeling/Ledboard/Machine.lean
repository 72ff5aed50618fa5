/-
# The machine

A processor and the bus of the board: RAM, then the display, then the noise source, each in its
window of the address map.  Since RAM is connected first, it shadows whatever overlaps it.
-/
import Ledboard.Processor

namespace Ledboard

/-- A processor, the bus that it runs against, and the map by which the bus was wired. -/
structure Machine where
  processor : Processor
  bus : Bus
  map : AddressMap
  deriving DecidableEq

namespace Machine

/-- The bus of a map: RAM, display number 0 and noise, in this order. -/
def wire (map : AddressMap) (display : Display) (noise : Noise) : Bus :=
  let ram := map.ramRange
  let video := map.videoRange
  let sampler := map.noiseRange
  (((Bus.empty #[display]).connect (.ram (Ram.ofSize map.ramSize)) ram.1 ram.2).connect
    (.display 0) video.1 video.2).connect (.noise noise) sampler.1 sampler.2

/-- A machine at power-on, with zeroed RAM. -/
def create (map : AddressMap) (display : Display) (noise : Noise) : Machine :=
  ⟨Processor.initial, wire map display noise, map⟩

/-- The display on the bus. -/
def display (m : Machine) : Display := m.bus.displays[0]?.getD default

/-- Changes the display on the bus. -/
def modifyDisplay (m : Machine) (change : Display → Display) : Machine :=
  { m with bus := { m.bus with displays := m.bus.displays.modify 0 change } }

/-- Copies a program into RAM from address 0 on, and says how many bytes fitted. -/
def load (m : Machine) (program : List UInt8) : Nat × Machine :=
  match m with
  | ⟨processor, bus, map⟩ =>
    let (count, bus) := bus.load 0 program
    (count.getD 0, ⟨processor, bus, map⟩)

/-- One cycle. -/
def step (m : Machine) : Option Instruction × Machine :=
  match m with
  | ⟨processor, bus, map⟩ =>
    let (i, processor, bus) := processor.cycle bus
    (i, ⟨processor, bus, map⟩)

/-- Steps until the halt, `limit` times at most, and says how many cycles ran. -/
def run (m : Machine) (limit : Nat) : Nat × Machine := go 0 m limit
where
  /-- The same, after `ran` cycles. -/
  go (ran : Nat) (m : Machine) : Nat → Nat × Machine
    | 0 => (ran, m)
    | left + 1 =>
      match m.step with
      | (none, m) => (ran, m)
      | (some _, m) => go (ran + 1) m left

/-- Asks for a snapshot if the number of the last cycle is divisible by the period. -/
def requestIfDue (m : Machine) (every : Option Nat) : Machine :=
  match every with
  | none => m
  | some period =>
    if m.processor.cycles.toNat % period = 0 then
      { m with processor := m.processor.requestDebug }
    else m

/-- The snapshot that was asked for, if any, and the machine without the request. -/
def takeDebug (m : Machine) : Option Snapshot × Machine :=
  let (snapshot, processor) := m.processor.takeDebug
  (snapshot, { m with processor := processor })

/-- Runs up to `steps` cycles, at least one, and stops early on a halt.  A snapshot is taken
after each cycle whose number is divisible by the period, and after the first one if it was
asked for before. -/
def runBatch (m : Machine) (steps : Nat) (every : Option Nat) : Array Snapshot × Machine :=
  go #[] m (max steps 1)
where
  /-- The same for an exact number of steps, after the snapshots already taken. -/
  go (taken : Array Snapshot) (m : Machine) : Nat → Array Snapshot × Machine
    | 0 => (taken, m)
    | left + 1 =>
      match m.step with
      | (none, m) => (taken, m)
      | (some _, m) =>
        match (m.requestIfDue every).takeDebug with
        | (none, m) => go taken m left
        | (some snapshot, m) => go (taken.push snapshot) m left

/-- The short form of a machine. -/
def describe (m : Machine) : String :=
  "Machine \x7b cpu: " ++ m.processor.describe ++ ", bus: " ++ m.bus.describe
    ++ ", layout: " ++ m.map.describe ++ " \x7d"

end Machine

end Ledboard
