/-
# Options

Each setting has a long option for the command line and a variable for the environment.  Both
give it as text.  Numbers are decimal; the size of RAM and the two base addresses may also be
hexadecimal after `0x`, may hold underscores and may have white space around them.
-/
import Ledboard.Settings
import Ledboard.Text.Blank
import Ledboard.Text.Quoted

namespace Ledboard

/-- The settings that can be given, in the order in which they are looked up. -/
inductive Setting where
  | listenAddress
  | ledCount
  | ramSize
  | videoBase
  | noiseBase
  | programStore
  | defaultProgram
  | indexPage
  | pingInterval
  | buttonPoll
  | stepsPerYield
  | debugEvery
  | logLevel
  deriving DecidableEq, Repr

/-- Why a value was refused. -/
inductive ValueError where
  /-- a path without characters -/
  | emptyPath
  /-- a text that is no value of the setting, with the reason -/
  | invalid (message : String)
  deriving DecidableEq, Repr

/-! ## 1. Numbers -/

/-- The base of a number and what follows its mark. -/
def radixOf : List Char → Nat × List Char
  | '0' :: 'x' :: rest => (16, rest)
  | '0' :: 'X' :: rest => (16, rest)
  | text => (10, text)

/-- Reads an address or a size: white space around it and underscores behind the mark of its base
do not count. -/
def readNumber (text : List Char) : Except Text.NumeralError Nat :=
  let (base, digits) := radixOf (Text.trim text)
  Text.readUnsigned base topAddress.toNat (digits.filter (· != '_'))

/-- An address or a size, or the reason against it. -/
def numberValue (text : String) : Except ValueError Nat :=
  (readNumber text.toList).mapError fun (e : Text.NumeralError) =>
    .invalid ("invalid number " ++ Text.quoted (String.ofList (Text.trim text.toList)) ++ ": "
      ++ e.message)

/-- A 64-bit count, or the reason against it. -/
def countValue (text : String) : Except ValueError Nat :=
  (Text.readUnsigned 10 18446744073709551615 text.toList).mapError (fun e => .invalid e.message)

/-- A 32-bit count, or the reason against it.  The text may be any signed 64-bit number; only its
value is compared with the bounds. -/
def stepsValue (text : String) : Except ValueError Nat :=
  match Text.readSigned 9223372036854775808 9223372036854775807 text.toList with
  | .error e => .error (.invalid e.message)
  | .ok n =>
    if 0 ≤ n ∧ n ≤ 4294967295 then .ok n.toNat
    else .error (.invalid (Text.decimal n ++ " is not in 0..=4294967295"))

/-! ## 2. Other values -/

/-- A path, which must not be empty. -/
def pathValue (text : String) : Except ValueError String :=
  if text.isEmpty then .error .emptyPath else .ok text

/-- A socket address, or the reason against it. -/
def addressValue (text : String) : Except ValueError SocketAddress :=
  match SocketAddress.read? text.toList with
  | some address => .ok address
  | none => .error (.invalid "invalid socket address syntax")

/-! ## 3. Settings by name -/

namespace Setting

/-- All settings, in the order in which they are looked up. -/
def all : List Setting :=
  [.listenAddress, .ledCount, .ramSize, .videoBase, .noiseBase, .programStore, .defaultProgram,
    .indexPage, .pingInterval, .buttonPoll, .stepsPerYield, .debugEvery, .logLevel]

/-- The long option, without its two dashes. -/
def option : Setting → String
  | .listenAddress => "listen-addr"
  | .ledCount => "led-count"
  | .ramSize => "ram-size"
  | .videoBase => "video-base"
  | .noiseBase => "noise-base"
  | .programStore => "program-store"
  | .defaultProgram => "default-program"
  | .indexPage => "index-html"
  | .pingInterval => "ping-interval-ms"
  | .buttonPoll => "button-poll-ms"
  | .stepsPerYield => "steps-per-yield"
  | .debugEvery => "debug-every"
  | .logLevel => "log-level"

/-- The environment variable: the option in upper case, with underscores. -/
def environmentName (s : Setting) : String :=
  "SKC_" ++ String.ofList (s.option.toList.map (fun c => if c = '-' then '_' else c.toUpper))

/-- The setting of a long option.  Options are not abbreviated, and case matters. -/
def ofOption? (name : String) : Option Setting := all.find? (fun s => s.option == name)

/-- Gives a setting the value of a text. -/
def assign (s : Setting) (text : String) (a : Arguments) : Except ValueError Arguments :=
  match s with
  | .listenAddress => (addressValue text).map (fun v => { a with listenAddress := v })
  | .ledCount => (countValue text).map (fun v => { a with ledCount := v })
  | .ramSize => (numberValue text).map (fun v => { a with ramSize := v })
  | .videoBase => (numberValue text).map (fun v => { a with videoBase := UInt32.ofNat v })
  | .noiseBase => (numberValue text).map (fun v => { a with noiseBase := UInt32.ofNat v })
  | .programStore => (pathValue text).map (fun v => { a with programStore := v })
  | .defaultProgram => (pathValue text).map (fun v => { a with defaultProgram := some v })
  | .indexPage => (pathValue text).map (fun v => { a with indexPage := v })
  | .pingInterval => (countValue text).map (fun v => { a with pingInterval := v })
  | .buttonPoll => (countValue text).map (fun v => { a with buttonPoll := v })
  | .stepsPerYield => (stepsValue text).map (fun v => { a with stepsPerYield := v })
  | .debugEvery => (countValue text).map (fun v => { a with debugEvery := some v })
  | .logLevel => .ok { a with logLevel := text }

end Setting

end Ledboard
