/-
# The command line

Options are given as `--name value` or `--name=value`, each at most once.  `--help`, `-h`,
`--version` and `-V` end the reading.  Nothing else is an argument: an unknown option, a word
that belongs to no option, and anything behind a lone `--` are refused.

The first fault is reported.  A value behind `=` is judged at once.  A value in a word of its own
is judged when the next option is met or the line ends, and not at all if an unknown word is met
first; until then its option is *open*.

A setting that the line does not give is taken from the environment, and else has its default.
-/
import Ledboard.Settings.Option

namespace Ledboard

/-- Why a command line leads to no settings. -/
inductive CommandLineError where
  | displayHelp
  | displayVersion
  | unknownArgument
  /-- an option without a value, or a path without characters -/
  | invalidValue
  /-- an option given twice -/
  | argumentConflict
  /-- a value for an option that takes none -/
  | tooManyValues
  /-- a value that is none of the option's -/
  | valueValidation (message : String)
  deriving DecidableEq, Repr

namespace CommandLineError

/-- The fault of a refused value. -/
def ofValue : ValueError → CommandLineError
  | .emptyPath => .invalidValue
  | .invalid message => .valueValidation message

/-- The exit code of the program. -/
def exitCode : CommandLineError → Nat
  | .displayHelp | .displayVersion => 0
  | _ => 2

/-- The wording of a refused value. -/
def message? : CommandLineError → Option String
  | .valueValidation message => some message
  | _ => none

end CommandLineError

/-! ## 1. Words -/

/-- What a word of the command line looks like. -/
inductive Argument where
  /-- `--` -/
  | escape
  /-- `--name`, perhaps with a value behind `=` -/
  | long (name : String) (value : Option String)
  /-- `-` and letters -/
  | short (letters : List Char)
  /-- anything else -/
  | plain (text : String)
  deriving DecidableEq, Repr

/-- What a word is.  A lone dash is plain. -/
def Argument.ofWord (word : String) : Argument :=
  match word.toList with
  | ['-', '-'] => .escape
  | '-' :: '-' :: body =>
    let name := body.takeWhile (· != '=')
    match body.drop name.length with
    | [] => .long (String.ofList name) none
    | _ :: value => .long (String.ofList name) (some (String.ofList value))
  | '-' :: letter :: letters => .short (letter :: letters)
  | _ => .plain word

/-! ## 2. Lines -/

/-- What was read of a command line. -/
structure CommandLine where
  arguments : Arguments
  given : List Setting
  /-- the open option, and its value once that was met -/
  pending : Option (Setting × Option String)
  deriving DecidableEq, Repr

namespace CommandLine

/-- The line before its first word. -/
def start : CommandLine := ⟨{}, [], none⟩

/-- Gives a setting a value, unless it has one. -/
def give (l : CommandLine) (s : Setting) (value : String) : Except CommandLineError CommandLine :=
  if s ∈ l.given then .error .argumentConflict
  else
    match s.assign value l.arguments with
    | .error e => .error (.ofValue e)
    | .ok arguments => .ok { l with arguments := arguments, given := s :: l.given }

/-- Judges the open option, if there is one. -/
def settle (l : CommandLine) : Except CommandLineError CommandLine :=
  match l.pending with
  | none => .ok l
  | some (_, none) => .error .invalidValue
  | some (s, some value) => { l with pending := none }.give s value

/-- Takes in a long option. -/
def long (l : CommandLine) (name : String) (value : Option String) :
    Except CommandLineError CommandLine :=
  match Setting.ofOption? name, value with
  | some s, some value => l.settle.bind (fun l => l.give s value)
  | some s, none => l.settle.map (fun l => { l with pending := some (s, none) })
  | none, value =>
    if name = "help" then
      if value.isSome then .error .tooManyValues else l.settle.bind (fun _ => .error .displayHelp)
    else if name = "version" then
      if value.isSome then .error .tooManyValues
      else l.settle.bind (fun _ => .error .displayVersion)
    else .error .unknownArgument

/-- Takes in short options; the first one decides. -/
def short (l : CommandLine) : List Char → Except CommandLineError CommandLine
  | 'h' :: _ => l.settle.bind (fun _ => .error .displayHelp)
  | 'V' :: _ => l.settle.bind (fun _ => .error .displayVersion)
  | _ => .error .unknownArgument

/-- Takes in a word that is no option. -/
def plain (l : CommandLine) (text : String) : Except CommandLineError CommandLine :=
  match l.pending with
  | some (s, none) => .ok { l with pending := some (s, some text) }
  | _ => .error .unknownArgument

/-- Takes in words, one after another. -/
def words (l : CommandLine) : List String → Except CommandLineError CommandLine
  | [] => l.settle
  | word :: rest =>
    match Argument.ofWord word with
    | .escape => if rest.isEmpty then l.settle else .error .unknownArgument
    | .long name value => (l.long name value).bind (fun l => l.words rest)
    | .short letters => (l.short letters).bind (fun l => l.words rest)
    | .plain text => (l.plain text).bind (fun l => l.words rest)

/-- Gives the settings that the line left out the values of the environment. -/
def environment (lookup : String → Option String) (given : List Setting) :
    Arguments → List Setting → Except CommandLineError Arguments
  | a, [] => .ok a
  | a, s :: rest =>
    if s ∈ given then environment lookup given a rest
    else
      match lookup s.environmentName with
      | none => environment lookup given a rest
      | some value =>
        match s.assign value a with
        | .error e => .error (.ofValue e)
        | .ok a => environment lookup given a rest

/-- The arguments of a command line and an environment. -/
def read (lookup : String → Option String) (args : List String) :
    Except CommandLineError Arguments := do
  let line ← start.words args
  environment lookup line.given line.arguments Setting.all

end CommandLine

/-! ## 3. Settings -/

/-- Why there are no settings. -/
inductive ConfigurationError where
  /-- the command line or a variable is at fault -/
  | line (cause : CommandLineError)
  /-- the values do not make sense together -/
  | settings (cause : SettingsError)
  deriving DecidableEq, Repr

/-- The settings of a command line and an environment. -/
def Settings.read (lookup : String → Option String) (args : List String) :
    Except ConfigurationError Settings :=
  match CommandLine.read lookup args with
  | .error e => .error (.line e)
  | .ok a => (Settings.ofArguments a).mapError .settings

end Ledboard
