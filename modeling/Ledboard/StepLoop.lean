/-
# The step loop

The board runs its processor batch by batch, so that other work gets its turn in between, until
the processor halts.  Each snapshot of a batch is reported, and so is the halt.  A processor
need not halt, so a run has a limit on the number of batches.
-/
import Ledboard.Log
import Ledboard.Machine

namespace Ledboard.StepLoop

/-- The report of a snapshot. -/
def snapshotEvent (s : Snapshot) : Log.Event := ⟨.info, "skc::cpu", s.text, []⟩

/-- The report of a halt. -/
def haltEvent (m : Machine) : Log.Event :=
  ⟨.info, "skc_firmware::runtime", "processor halted",
    [("cycles", Text.decimal m.processor.cycles.toNat),
      ("ip", Text.decimal m.processor.ip.toNat)]⟩

/-- What a run came to: the cycle count at the halt, if there was one within the limit, the
machine and the reports. -/
structure Outcome where
  cycles : Option Nat
  machine : Machine
  events : Array Log.Event

/-- Runs batches of `steps` cycles until the halt, at most `limit` of them, behind the reports
already made. -/
def runFrom (steps : Nat) (every : Option Nat) (events : Array Log.Event) :
    Nat → Machine → Outcome
  | 0, m => ⟨none, m, events⟩
  | left + 1, m =>
    let (taken, m) := m.runBatch steps every
    let events := events ++ taken.map snapshotEvent
    if m.processor.halted then
      ⟨some m.processor.cycles.toNat, m, events.push (haltEvent m)⟩
    else runFrom steps every events left m

/-- Runs batches of `steps` cycles until the halt, at most `limit` of them. -/
def run (steps : Nat) (every : Option Nat) (limit : Nat) (m : Machine) : Outcome :=
  runFrom steps every #[] limit m

end Ledboard.StepLoop
