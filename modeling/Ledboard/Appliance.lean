/-
# The whole board

A board that was started has a machine and files, and shares its display and its files with the
clients of its server.  The server is started by the first client and can be stopped.  Clients
reach it over the host's network, which may be down: connecting then fails and nothing else
happens.
-/
import Ledboard.Connection
import Ledboard.StepLoop

namespace Ledboard

/-- Whether clients can reach the board. -/
inductive Network where
  | up
  | down
  deriving DecidableEq, Repr

/-- Why a client has no connection. -/
inductive ConnectError where
  | networkUnreachable
  deriving DecidableEq, Repr

/-- A board at work. -/
structure Appliance where
  settings : Settings
  network : Network
  machine : Machine
  files : FileTree
  image : BootImage
  serving : Bool
  /-- how often the display was flushed before the last start -/
  pastFlushes : Nat

namespace Appliance

/-- Starts a board. -/
def start (settings : Settings) (network : Network) (noise : Noise) (files : FileTree) :
    Appliance × List Log.Event :=
  let loaded := Boot.run settings noise files
  (⟨settings, network, loaded.machine, files, loaded.image, false, 0⟩, loaded.events)

/-- How often the display was flushed, over all starts. -/
def flushes (a : Appliance) : Nat := a.pastFlushes + a.machine.display.flushes

/-- Starts a board again, with its files as they are. -/
def restart (a : Appliance) (noise : Noise) : Appliance × List Log.Event :=
  let (again, events) := start a.settings a.network noise a.files
  ({ again with pastFlushes := a.flushes }, events)

/-- What the board shows to clients. -/
def site (a : Appliance) : Site := ⟨a.settings.indexPage, ⟨a.settings.programStore⟩⟩

/-- What clients can change. -/
def board (a : Appliance) : Board := ⟨a.machine.display, a.files⟩

/-- The board after clients changed what they can change. -/
def withBoard (a : Appliance) (b : Board) : Appliance :=
  { a with machine := a.machine.modifyDisplay (fun _ => b.display), files := b.files }

/-- Carries out a message of a client. -/
def dispatch (a : Appliance) (message : List UInt8) : Except StoreError (Effect × Appliance) :=
  (a.board.dispatch a.site.store message).map (fun (effect, b) => (effect, a.withBoard b))

/-- One cycle of the processor. -/
def step (a : Appliance) : Option Instruction × Appliance :=
  let (i, machine) := a.machine.step
  (i, { a with machine := machine })

/-- Runs the step loop until the halt, for at most `limit` batches. -/
def run (a : Appliance) (limit : Nat) : Option Nat × Appliance × List Log.Event :=
  let outcome := StepLoop.run a.settings.stepsPerYield a.settings.debugEvery limit a.machine
  (outcome.cycles, { a with machine := outcome.machine }, outcome.events.toList)

/-- A client connects, sends a request and, after an upgrade, more bytes.  The server is started
if it is not running, even for a client that cannot reach it. -/
def connect (a : Appliance) (peer : String) (request more : List UInt8) :
    Except ConnectError Connection.Exchange × Appliance :=
  let a := { a with serving := true }
  match a.network with
  | .down => (.error .networkUnreachable, a)
  | .up =>
    let exchange := Connection.serve a.site peer a.board request more
    (.ok exchange, a.withBoard exchange.board)

/-- Stops the server, if it is running. -/
def shutdown (a : Appliance) : Appliance × List Log.Event :=
  if a.serving then
    ({ a with serving := false }, [⟨.debug, "skc_firmware::server", "accept loop stopped", []⟩])
  else (a, [])

/-- What happens on a board at work. -/
inductive Happening where
  /-- a cycle of the processor -/
  | cycle
  /-- a message of a client -/
  | message (bytes : List UInt8)
  deriving DecidableEq, Repr

/-- The board after something happened.  Where the store fails, a message changes nothing. -/
def happen (a : Appliance) : Happening → Appliance
  | .cycle => a.step.2
  | .message bytes =>
    match a.dispatch bytes with
    | .ok (_, next) => next
    | .error _ => a

/-- The board after some things happened, one after another. -/
def live (a : Appliance) (happenings : List Happening) : Appliance := happenings.foldl happen a

end Appliance

end Ledboard
