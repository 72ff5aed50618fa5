/-
# Statements

A statement is an operation with its operand, or a directive.  Statements follow one another
without separators.  Each remembers the span of its text, from the first byte of its first token
to the last byte of its last token, and the position of that last token, which is its operand if
it has one.
-/
import Ledboard.Assembly.Token

namespace Ledboard.Assembly

/-- A register, by number or by a name that a directive gives it. -/
inductive RegisterRef where
  | number (index : UInt8)
  | name (text : String)
  deriving DecidableEq, Repr

/-- What a statement asks for. -/
inductive Action where
  /-- emit an instruction that depends on nothing else -/
  | emit (instruction : Instruction)
  /-- emit a push of a register -/
  | push (register : RegisterRef)
  /-- emit a pop into a register -/
  | pop (register : RegisterRef)
  /-- emit a jump to a location -/
  | jump (target : String)
  /-- give a register a name -/
  | nameRegister (name : String) (register : UInt8)
  /-- give the present location a name -/
  | here (name : String)
  deriving DecidableEq, Repr

/-- How many bytes a statement emits. -/
def Action.width : Action → Nat
  | .emit i => i.width
  | .push _ | .pop _ => 2
  | .jump _ => 3
  | .nameRegister _ _ | .here _ => 0

/-- An action and the place of its text. -/
structure Statement where
  action : Action
  position : Nat
  length : Nat
  operandPosition : Nat
  deriving DecidableEq, Repr

namespace Statement

/-- The statement whose text runs from one token to another. -/
def between (first last : Token) (action : Action) : Statement :=
  ⟨action, first.position, last.ending - first.position, last.position⟩

end Statement

/-! ## 1. Operands -/

/-- What a push does with its operand. -/
def pushOperand? : Lexeme → Option Action
  | .number value => some (.emit (.pushInt value))
  | .register number => some (.push (.number number))
  | .name name => some (.push (.name name))
  | _ => none

/-- What a pop does with its operand. -/
def popOperand? : Lexeme → Option Action
  | .register number => some (.pop (.number number))
  | .name name => some (.pop (.name name))
  | _ => none

/-- The name that a lexeme is. -/
def Lexeme.name? : Lexeme → Option String
  | .name text => some text
  | _ => none

/-- The register that a lexeme is. -/
def Lexeme.register? : Lexeme → Option UInt8
  | .register index => some index
  | _ => none

/-- How a statement goes on after its first token. -/
inductive Form where
  /-- it is complete -/
  | plain (instruction : Instruction)
  /-- one operand follows -/
  | unary (expected : Expected) (read : Lexeme → Option Action)
  /-- a name and a register follow -/
  | naming

/-- The form of the statement that a lexeme starts. -/
def Lexeme.form? : Lexeme → Option Form
  | .keyword .push => some (.unary .numberRegisterOrName pushOperand?)
  | .keyword .pop => some (.unary .registerOrName popOperand?)
  | .keyword .jl => some (.unary .name (fun l => l.name?.map .jump))
  | .keyword .add => some (.plain .add)
  | .keyword .mul => some (.plain .mul)
  | .keyword .hlt => some (.plain .halt)
  | .keyword .read => some (.plain .read)
  | .keyword .write => some (.plain .write)
  | .nameDirective => some .naming
  | .hereDirective => some (.unary .name (fun l => l.name?.map .here))
  | _ => none

/-! ## 2. Sequences of statements -/

/-- The refusal of a token. -/
def unexpected (token : Token) (expected : Expected) : AssemblyError :=
  .unexpectedToken token.position (some token.lexeme) expected

/-- The refusal of the end of the source. -/
def unexpectedEnd (ending : Nat) (expected : Expected) : AssemblyError :=
  .unexpectedToken ending none expected

/-- Groups the rest of the tokens of a source, which ends at `ending`, behind the statements
already grouped. -/
def statementsFrom (ending : Nat) (done : Array Statement) :
    List Token → Except AssemblyError (Array Statement)
  | [] => .ok done
  | head :: rest =>
    match head.lexeme.form? with
    | none => .error (unexpected head .operation)
    | some (.plain i) => statementsFrom ending (done.push (.between head head (.emit i))) rest
    | some (.unary expected read) =>
      match rest with
      | [] => .error (unexpectedEnd ending expected)
      | operand :: rest =>
        match read operand.lexeme with
        | none => .error (unexpected operand expected)
        | some action => statementsFrom ending (done.push (.between head operand action)) rest
    | some .naming =>
      match rest with
      | [] => .error (unexpectedEnd ending .name)
      | name :: rest =>
        match name.lexeme.name? with
        | none => .error (unexpected name .name)
        | some text =>
          match rest with
          | [] => .error (unexpectedEnd ending .register)
          | register :: rest =>
            match register.lexeme.register? with
            | none => .error (unexpected register .register)
            | some number =>
              let action := .nameRegister text number
              statementsFrom ending (done.push (.between head register action)) rest

/-- The statements of a sequence of tokens. -/
def statements (ending : Nat) (tokens : List Token) : Except AssemblyError (List Statement) :=
  (statementsFrom ending #[] tokens).map Array.toList

end Ledboard.Assembly
