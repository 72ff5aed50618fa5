/-
# The program

Reads the settings from the command line and the environment, starts the board with the files of
the working directory, and runs its processor until it halts.  What the board reports goes to
the standard output, flushed frames included, since there is no LED chain.

The board's clients are not served from here: whoever has a network passes their bytes to
`Appliance.connect`.
-/
import Ledboard.Appliance
import Ledboard.LedLog
import Ledboard.Settings.CommandLine

namespace Ledboard.Program

/-- How wide the rows of a frame are in the log. -/
def rowWidth : Nat := 8

/-- Prints the reports that have a level or a more severe one. -/
def report (least : Log.Level) (events : List Log.Event) : IO Unit :=
  (Log.lines least events).forM IO.println

/-- The variables of the environment that give settings. -/
def environment : IO (List (String × String)) :=
  Setting.all.filterMapM fun s => do
    return (← IO.getEnv s.environmentName).map (fun value => (s.environmentName, value))

/-- Adds a file to a tree if it can be read. -/
def addFile (files : FileTree) (path : String) : IO FileTree := do
  try
    let bytes ← IO.FS.readBinFile path
    return files.put path bytes.data.toList
  catch
    | .inappropriateType .. => return files.put (path ++ "/") []
    | _ => return files

/-- The files that the settings name. -/
def readFiles (s : Settings) : IO FileTree :=
  (s.programStore :: s.indexPage :: s.defaultProgram.toList).foldlM addFile .empty

/-- A noise source with a seed from the host. -/
def hostNoise : IO Noise := do
  let bytes ← IO.getRandomBytes 8
  return Noise.ofSeed (bytes.data.foldl (fun seed b => seed * 256 + b.toUInt64) 0)

/-- Runs a machine until it halts, one cycle after another, and reports what it does. -/
partial def work (least : Log.Level) (every : Option Nat) (m : Machine) : IO Unit := do
  let flushed := m.display.flushes
  let (taken, m) := m.runBatch 1 every
  if flushed < m.display.flushes then report least (LedLog.latest rowWidth m.display)
  report least (taken.toList.map StepLoop.snapshotEvent)
  if m.processor.halted then report least [StepLoop.haltEvent m]
  else work least every m

/-- What is printed when there are no settings, and the exit code. -/
def refuse : ConfigurationError → IO UInt32
  | .line .displayHelp => do
    IO.println "Options, each followed by a value:"
    for s in Setting.all do
      IO.println ("  --" ++ s.option ++ "  (environment: " ++ s.environmentName ++ ")")
    return 0
  | .line .displayVersion => do
    IO.println "ledboard"
    return 0
  | .line cause => do
    IO.eprintln ("error: " ++ (cause.message?.getD "bad command line, try --help"))
    return UInt32.ofNat cause.exitCode
  | .settings cause => do
    IO.eprintln ("Error: " ++ cause.message)
    return 1

/-- Starts the board that the command line describes. -/
def start (args : List String) : IO UInt32 := do
  let present ← environment
  match Settings.read (fun name => present.lookup name) args with
  | .error cause => refuse cause
  | .ok settings =>
    let least := (Log.Level.ofName? settings.logLevel).getD .info
    let (board, events) := Appliance.start settings .down (← hostNoise) (← readFiles settings)
    report least (LedLog.latest rowWidth (Boot.display settings.map.ledCount))
    report least events
    work least settings.debugEvery board.machine
    return 0

end Ledboard.Program

/-- The entry point. -/
def main (args : List String) : IO UInt32 := Ledboard.Program.start args
