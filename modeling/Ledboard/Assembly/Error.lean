/-
# What can be wrong with assembly source

Each cause carries the position, in bytes from the start of the source, at which it shows.
-/
import Ledboard.Assembly.Lexeme

namespace Ledboard.Assembly

/-- What a statement needs next. -/
inductive Expected where
  | operation
  | numberRegisterOrName
  | registerOrName
  | name
  | register
  deriving DecidableEq, Repr

/-- The wording of a need. -/
def Expected.describe : Expected → String
  | .operation => "an operation"
  | .numberRegisterOrName => "a number, register or name"
  | .registerOrName => "a register or name"
  | .name => "a name"
  | .register => "a register"

/-- Why a source cannot be assembled. -/
inductive AssemblyError where
  /-- no token starts here -/
  | unexpectedSymbol (position : Nat)
  /-- a token, or the end of the source, where something else is needed -/
  | unexpectedToken (position : Nat) (found : Option Lexeme) (expected : Expected)
  /-- a number that neither 32 signed nor 32 unsigned bits hold -/
  | numberOutOfRange (position : Nat) (text : String)
  /-- a register above the last one -/
  | registerOutOfRange (position : Nat) (text : String)
  /-- a name that no directive gives to a register -/
  | undefinedName (position : Nat) (name : String)
  /-- a jump to a name that marks no location -/
  | undefinedLocation (position : Nat) (name : String)
  /-- a second mark of the same name -/
  | duplicateLocation (position : Nat) (name : String)
  /-- a jump too far for 16 bits -/
  | jumpOutOfRange (position : Nat) (name : String) (displacement : Int)
  deriving DecidableEq, Repr

namespace AssemblyError

/-- Where the cause shows. -/
def position : AssemblyError → Nat
  | .unexpectedSymbol p => p
  | .unexpectedToken p _ _ => p
  | .numberOutOfRange p _ => p
  | .registerOutOfRange p _ => p
  | .undefinedName p _ => p
  | .undefinedLocation p _ => p
  | .duplicateLocation p _ => p
  | .jumpOutOfRange p _ _ => p

/-- The wording of a cause. -/
def message : AssemblyError → String
  | .unexpectedSymbol p => "unexpected symbol at " ++ Text.decimal p
  | .unexpectedToken p found expected =>
    "unexpected " ++ (match found with
        | none => "end of input"
        | some lexeme => lexeme.describe)
      ++ " at " ++ Text.decimal p ++ ", expected " ++ expected.describe
  | .numberOutOfRange p text =>
    "number " ++ Text.quoted text ++ " at " ++ Text.decimal p ++ " does not fit in 32 bits"
  | .registerOutOfRange p text =>
    "register " ++ Text.quoted text ++ " at " ++ Text.decimal p ++ " is out of range (max i31)"
  | .undefinedName p name => "undefined name " ++ Text.quoted name ++ " at " ++ Text.decimal p
  | .undefinedLocation p name =>
    "undefined location " ++ Text.quoted name ++ " at " ++ Text.decimal p
  | .duplicateLocation p name =>
    "location " ++ Text.quoted name ++ " at " ++ Text.decimal p ++ " is already defined"
  | .jumpOutOfRange p name displacement =>
    "jump at " ++ Text.decimal p ++ " to " ++ Text.quoted name ++ " is out of range ("
      ++ Text.decimal displacement ++ " bytes)"

end AssemblyError

end Ledboard.Assembly
