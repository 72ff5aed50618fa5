/-
# Settings

Everything about the board that can be chosen when it starts.  `Arguments` are the values as
they were given, each valid on its own; `Settings` are values that make sense together: periods
are not zero, there is at least one LED, and all windows fit the address space.
-/
import Ledboard.AddressMap
import Ledboard.Settings.SocketAddress

namespace Ledboard

/-- The values that were given, or their defaults. -/
structure Arguments where
  listenAddress : SocketAddress := .v4 [0, 0, 0, 0] 80
  ledCount : Nat := AddressMap.standard.ledCount
  ramSize : Nat := AddressMap.standard.ramSize
  videoBase : UInt32 := AddressMap.standard.videoBase
  noiseBase : UInt32 := AddressMap.standard.noiseBase
  programStore : String := "ram.bin"
  defaultProgram : Option String := none
  indexPage : String := "index.html"
  pingInterval : Nat := 10000
  buttonPoll : Nat := 10
  stepsPerYield : Nat := 1
  debugEvery : Option Nat := none
  logLevel : String := "info"
  deriving DecidableEq, Repr

namespace Arguments

/-- The address map that the arguments describe. -/
def map (a : Arguments) : AddressMap := ⟨a.ramSize, a.videoBase, a.noiseBase, a.ledCount⟩

end Arguments

/-- Values that make sense together.  Periods are in milliseconds. -/
structure Settings where
  listenAddress : SocketAddress
  map : AddressMap
  programStore : String
  defaultProgram : Option String
  indexPage : String
  pingInterval : Nat
  buttonPoll : Nat
  stepsPerYield : Nat
  debugEvery : Option Nat
  logLevel : String
  deriving DecidableEq, Repr

/-- Why values do not make sense together. -/
inductive SettingsError where
  /-- the chain has no LED -/
  | noLeds
  /-- something that has to be at least one is zero -/
  | zero (name : String)
  /-- the last RAM address would not be an address -/
  | ramTooLarge (size : Nat)
  /-- the display window would leave the address space -/
  | displayTooLarge (leds : Nat) (base : UInt32)
  deriving DecidableEq, Repr

/-- The wording of a reason. -/
def SettingsError.message : SettingsError → String
  | .noLeds => "led count must be at least 1"
  | .zero name => name ++ " must be at least 1"
  | .ramTooLarge size => "ram size " ++ Text.decimal size ++ " does not fit the address space"
  | .displayTooLarge leds base =>
    "display window for " ++ Text.decimal leds ++ " leds at " ++ Text.hex base.toNat
      ++ " runs past the end of the address space"

namespace Settings

/-- The settings that arguments describe.  Of several reasons against them the first is given. -/
def ofArguments (a : Arguments) : Except SettingsError Settings :=
  if a.ledCount = 0 then .error .noLeds
  else if a.stepsPerYield = 0 then .error (.zero "steps per yield")
  else if a.pingInterval = 0 then .error (.zero "ping interval")
  else if a.buttonPoll = 0 then .error (.zero "button poll interval")
  else if a.debugEvery = some 0 then .error (.zero "debug interval")
  else if a.ramSize = topAddress.toNat then .error (.ramTooLarge a.ramSize)
  else if a.map.videoEnd?.isNone then .error (.displayTooLarge a.ledCount a.videoBase)
  else
    .ok {
      listenAddress := a.listenAddress
      map := a.map
      programStore := a.programStore
      defaultProgram := a.defaultProgram
      indexPage := a.indexPage
      pingInterval := a.pingInterval
      buttonPoll := a.buttonPoll
      stepsPerYield := a.stepsPerYield
      debugEvery := a.debugEvery
      logLevel := a.logLevel }

end Settings

end Ledboard
