/-
# Lexemes of assembly source

Source text is cut into eight keywords, numbers, registers, names and two directives.  A token
is a lexeme with the place of its text, counted in bytes of UTF-8 from the start of the source.
-/
import Ledboard.Instruction
import Ledboard.Text.Quoted

namespace Ledboard.Assembly

/-- The reserved words. -/
inductive Keyword where
  | push
  | pop
  | add
  | mul
  | jl
  | hlt
  | read
  | write
  deriving DecidableEq, Repr

namespace Keyword

/-- All reserved words. -/
def all : List Keyword := [.push, .pop, .add, .mul, .jl, .hlt, .read, .write]

/-- The word in source text. -/
def word : Keyword → String
  | .push => "push"
  | .pop => "pop"
  | .add => "add"
  | .mul => "mul"
  | .jl => "jl"
  | .hlt => "hlt"
  | .read => "read"
  | .write => "write"

/-- The word in messages. -/
def title : Keyword → String
  | .push => "Push"
  | .pop => "Pop"
  | .add => "Add"
  | .mul => "Mul"
  | .jl => "Jl"
  | .hlt => "Hlt"
  | .read => "Read"
  | .write => "Write"

/-- The keyword that a word is, if it is one.  Case matters. -/
def ofWord? (word : String) : Option Keyword := all.find? (fun k => k.word == word)

end Keyword

/-- What a token can be. -/
inductive Lexeme where
  /-- a number, reduced to 32 bits -/
  | number (value : Int32)
  /-- a register -/
  | register (index : UInt8)
  /-- a name for a register or a location -/
  | name (text : String)
  /-- a reserved word -/
  | keyword (word : Keyword)
  /-- the directive that names a register -/
  | nameDirective
  /-- the directive that names a location -/
  | hereDirective
  deriving DecidableEq, Repr

/-- A lexeme in messages. -/
def Lexeme.describe : Lexeme → String
  | .number v => "number " ++ Text.decimal v.toInt
  | .register n => "register i" ++ Text.decimal n.toNat
  | .name s => "name " ++ Text.quoted s
  | .keyword k => "keyword " ++ k.title
  | .nameDirective => "#name"
  | .hereDirective => "#here"

/-- A lexeme and the place of its text. -/
structure Token where
  lexeme : Lexeme
  position : Nat
  length : Nat
  deriving DecidableEq, Repr

/-- Where the text of a token ends. -/
def Token.ending (t : Token) : Nat := t.position + t.length

end Ledboard.Assembly
