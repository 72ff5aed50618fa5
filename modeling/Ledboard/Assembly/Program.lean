/-
# Programs

Assembling lays statements out one after another and then settles the jumps.

* A name stands for the register of the *first* directive that gives it one, wherever in the
  source that directive stands.
* A location stands for the offset of the next instruction, and is marked once only.
* A jump is relative to its own offset and may go backward or forward.

Faults are found in this order: tokens, statements, names and repeated locations in the order of
the statements, and last the jumps, again in order.

The result keeps each instruction together with its offset in the program and the span of its
statement in the source; the bytes of the program are the encodings in order.
-/
import Ledboard.Assembly.Statement

namespace Ledboard.Assembly

/-- One instruction of a program and where it comes from. -/
structure Row where
  offset : Nat
  instruction : Instruction
  position : Nat
  length : Nat
  deriving DecidableEq, Repr

/-- An assembled program. -/
structure Program where
  rows : List Row
  deriving DecidableEq, Repr

namespace Program

/-- The instructions of a program. -/
def instructions (p : Program) : List Instruction := p.rows.map Row.instruction

/-- The bytes of a program. -/
def bytes (p : Program) : List UInt8 := p.rows.flatMap (fun row => row.instruction.encode)

end Program

/-! ## 1. Names -/

/-- Takes note of a directive that gives a register a name, unless the name is taken. -/
def noteName (known : List (String × UInt8)) (s : Statement) : List (String × UInt8) :=
  match s.action with
  | .nameRegister name register =>
    match known.lookup name with
    | some _ => known
    | none => (name, register) :: known
  | _ => known

/-- The names that directives give to registers. -/
def aliases (statements : List Statement) : List (String × UInt8) :=
  statements.foldl noteName []

/-- The register that a reference means. -/
def registerOf (aliases : List (String × UInt8)) (position : Nat) :
    RegisterRef → Except AssemblyError UInt8
  | .number number => .ok number
  | .name name =>
    match aliases.lookup name with
    | some number => .ok number
    | none => .error (.undefinedName position name)

/-! ## 2. Layout -/

/-- An instruction whose offset is known, but whose jump target may not be. -/
inductive Code where
  /-- known in full -/
  | ready (instruction : Instruction)
  /-- a jump to a location -/
  | jump (target : String)
  deriving DecidableEq, Repr

/-- A statement that emits code, and the offset of the code. -/
structure Placed where
  statement : Statement
  offset : Nat
  code : Code
  deriving DecidableEq, Repr

/-- The locations of a program and their offsets. -/
abbrev Locations := List (String × Nat)

/-- The layout of some statements: their code, the locations and the offset behind them. -/
structure Layout where
  placed : Array Placed
  locations : Locations
  size : Nat

namespace Layout

/-- The layout of no statements. -/
def empty : Layout := ⟨#[], [], 0⟩

/-- Adds code at the end. -/
def emit (l : Layout) (s : Statement) (code : Code) : Layout :=
  ⟨l.placed.push ⟨s, l.size, code⟩, l.locations, l.size + s.action.width⟩

/-- Adds a statement at the end. -/
def add (aliases : List (String × UInt8)) (l : Layout) (s : Statement) :
    Except AssemblyError Layout :=
  match s.action with
  | .emit i => .ok (l.emit s (.ready i))
  | .push r => (registerOf aliases s.operandPosition r).map (fun n => l.emit s (.ready (.pushReg n)))
  | .pop r => (registerOf aliases s.operandPosition r).map (fun n => l.emit s (.ready (.popReg n)))
  | .jump target => .ok (l.emit s (.jump target))
  | .nameRegister _ _ => .ok l
  | .here name =>
    match l.locations.lookup name with
    | some _ => .error (.duplicateLocation s.operandPosition name)
    | none => .ok { l with locations := (name, l.size) :: l.locations }

/-- Adds statements at the end, one after another. -/
def addAll (aliases : List (String × UInt8)) : Layout → List Statement →
    Except AssemblyError Layout
  | l, [] => .ok l
  | l, s :: rest =>
    match l.add aliases s with
    | .error e => .error e
    | .ok l => addAll aliases l rest

end Layout

/-! ## 3. Jumps -/

/-- Whether 16 signed bits hold a displacement. -/
def reaches (displacement : Int) : Bool :=
  decide (-32768 ≤ displacement) && decide (displacement ≤ 32767)

/-- The instruction of placed code. -/
def settle (locations : Locations) (p : Placed) : Except AssemblyError Instruction :=
  match p.code with
  | .ready i => .ok i
  | .jump target =>
    match locations.lookup target with
    | none => .error (.undefinedLocation p.statement.operandPosition target)
    | some offset =>
      let displacement := (offset : Int) - (p.offset : Int)
      if reaches displacement then .ok (.jumpIfLess (Int16.ofInt displacement))
      else .error (.jumpOutOfRange p.statement.position target displacement)

/-- Settles placed code, one after another, behind the rows already settled. -/
def settleAll (locations : Locations) : Array Row → List Placed →
    Except AssemblyError (Array Row)
  | done, [] => .ok done
  | done, p :: rest =>
    match settle locations p with
    | .error e => .error e
    | .ok i =>
      settleAll locations (done.push ⟨p.offset, i, p.statement.position, p.statement.length⟩) rest

/-! ## 4. The whole -/

/-- The program of a list of statements. -/
def link (statements : List Statement) : Except AssemblyError Program := do
  let layout ← Layout.empty.addAll (aliases statements) statements
  let rows ← settleAll layout.locations #[] layout.placed.toList
  return ⟨rows.toList⟩

/-- The statements of a source. -/
def parse (source : String) : Except AssemblyError (List Statement) := do
  statements source.utf8ByteSize (← tokens source)

/-- The program of a source. -/
def assemble (source : String) : Except AssemblyError Program := do
  link (← parse source)

end Ledboard.Assembly
