/-
# What a source means

This module says what a list of statements means, without saying how it is assembled.

* A name means the register of the *first* directive that gives it one, wherever that directive
  stands (`FirstNamed`).  A location means the number of bytes that are emitted in front of its
  mark (`Marked`).
* A statement means an instruction or nothing (`Means`).  A jump's displacement is the number
  that leads from the jump's own offset to its location.
* The faults come in two rounds, each in the order of the statements: names without a register
  and repeated marks (`NamingFault`), then jumps that lead nowhere or too far (`JumpFault`).
  The first of a round is the one that is reported (`FirstFault`).
-/
import Ledboard.Assembly.Program
import Ledboard.Proofs.Outcome

namespace Ledboard.Assembly

/-! ## 1. The meaning -/

/-- How many bytes statements emit, all together. -/
def emittedSize (ss : List Statement) : Nat := ss.foldr (fun s n => s.action.width + n) 0

/-- The first directive that gives a name a register gives it this one. -/
def FirstNamed (ss : List Statement) (name : String) (register : UInt8) : Prop :=
  ∃ before s after, ss = before ++ s :: after ∧ s.action = .nameRegister name register ∧
    ∀ t ∈ before, ∀ other, t.action ≠ .nameRegister name other

/-- No directive gives a name a register. -/
def Unnamed (ss : List Statement) (name : String) : Prop :=
  ∀ t ∈ ss, ∀ register, t.action ≠ .nameRegister name register

/-- A mark of a name stands behind so many bytes of code. -/
def Marked (ss : List Statement) (name : String) (offset : Nat) : Prop :=
  ∃ before s after, ss = before ++ s :: after ∧ s.action = .here name ∧
    emittedSize before = offset

/-- No mark of a name is there. -/
def Unmarked (ss : List Statement) (name : String) : Prop := ∀ t ∈ ss, t.action ≠ .here name

/-- The register that a reference stands for. -/
inductive Denotes (ss : List Statement) : RegisterRef → UInt8 → Prop where
  | number (r : UInt8) : Denotes ss (.number r) r
  | name {name : String} {r : UInt8} (h : FirstNamed ss name r) : Denotes ss (.name name) r

/-- The instruction that a statement stands for, if it emits one.  `before` are the statements in
front of it, and `ss` are all. -/
inductive Means (ss before : List Statement) : Action → Option Instruction → Prop where
  | emit (i : Instruction) : Means ss before (.emit i) (some i)
  | push {r : RegisterRef} {n : UInt8} (h : Denotes ss r n) :
      Means ss before (.push r) (some (.pushReg n))
  | pop {r : RegisterRef} {n : UInt8} (h : Denotes ss r n) :
      Means ss before (.pop r) (some (.popReg n))
  | jump {target : String} {offset : Nat} {d : Int16} (h : Marked ss target offset)
      (hd : (emittedSize before : Int) + d.toInt = offset) :
      Means ss before (.jump target) (some (.jumpIfLess d))
  | nameRegister (name : String) (r : UInt8) : Means ss before (.nameRegister name r) none
  | here (name : String) : Means ss before (.here name) none

/-- The rows of the statements behind `before`: one for each that emits code, in their order. -/
inductive Compiled (ss : List Statement) : List Statement → List Statement → List Row → Prop where
  | nil (before : List Statement) : Compiled ss before [] []
  | silent {before rest : List Statement} {s : Statement} {rows : List Row}
      (h : Means ss before s.action none) (hrest : Compiled ss (before ++ [s]) rest rows) :
      Compiled ss before (s :: rest) rows
  | code {before rest : List Statement} {s : Statement} {rows : List Row} {i : Instruction}
      (h : Means ss before s.action (some i)) (hrest : Compiled ss (before ++ [s]) rest rows) :
      Compiled ss before (s :: rest) (⟨emittedSize before, i, s.position, s.length⟩ :: rows)

/-! ## 2. The faults -/

/-- What is wrong with a statement behind `before`, as far as names and marks go. -/
inductive NamingFault (ss before : List Statement) (s : Statement) : AssemblyError → Prop where
  | undefined {name : String} (hs : s.action = .push (.name name) ∨ s.action = .pop (.name name))
      (h : Unnamed ss name) : NamingFault ss before s (.undefinedName s.operandPosition name)
  | repeated {name : String} (hs : s.action = .here name) (h : ¬ Unmarked before name) :
      NamingFault ss before s (.duplicateLocation s.operandPosition name)

/-- What is wrong with a jump behind `before`. -/
inductive JumpFault (ss before : List Statement) (s : Statement) : AssemblyError → Prop where
  | undefined {target : String} (hs : s.action = .jump target) (h : Unmarked ss target) :
      JumpFault ss before s (.undefinedLocation s.operandPosition target)
  | tooFar {target : String} {offset : Nat} {d : Int} (hs : s.action = .jump target)
      (h : Marked ss target offset) (hd : (emittedSize before : Int) + d = offset)
      (hfar : ¬ (-32768 ≤ d ∧ d ≤ 32767)) :
      JumpFault ss before s (.jumpOutOfRange s.position target d)

/-- The first fault of the statements behind `before`, going through them in order. -/
inductive FirstFault (fault : List Statement → Statement → AssemblyError → Prop) :
    List Statement → List Statement → AssemblyError → Prop where
  | now {before rest : List Statement} {s : Statement} {e : AssemblyError} (h : fault before s e) :
      FirstFault fault before (s :: rest) e
  | later {before rest : List Statement} {s : Statement} {e : AssemblyError}
      (h : ∀ e', ¬ fault before s e') (hrest : FirstFault fault (before ++ [s]) rest e) :
      FirstFault fault before (s :: rest) e

/-- The statements behind `before` have no fault. -/
def Faultless (fault : List Statement → Statement → AssemblyError → Prop)
    (before rest : List Statement) : Prop := ∀ e, ¬ FirstFault fault before rest e

theorem faultless_nil (fault : List Statement → Statement → AssemblyError → Prop)
    (before : List Statement) : Faultless fault before [] := by
  intro e h
  cases h

theorem faultless_cons {fault : List Statement → Statement → AssemblyError → Prop}
    {before rest : List Statement} {s : Statement} (h : ∀ e, ¬ fault before s e)
    (hrest : Faultless fault (before ++ [s]) rest) : Faultless fault before (s :: rest) := by
  intro e hfault
  cases hfault with
  | now hs => exact h e hs
  | later _ hlater => exact hrest e hlater

/-- Where each statement has one fault at most there is one first fault at most. -/
theorem FirstFault.unique {fault : List Statement → Statement → AssemblyError → Prop}
    (hfault : ∀ before s e e', fault before s e → fault before s e' → e = e')
    {before rest : List Statement} {e e' : AssemblyError} (h : FirstFault fault before rest e)
    (h' : FirstFault fault before rest e') : e = e' := by
  induction h with
  | now hs =>
    cases h' with
    | now hs' => exact hfault _ _ _ _ hs hs'
    | later hno _ => exact absurd hs (hno _)
  | later hno _ ih =>
    cases h' with
    | now hs' => exact absurd hs' (hno _)
    | later _ hrest' => exact ih hrest'

/-- A fault that comes first is the fault of some statement. -/
theorem FirstFault.exists_fault {fault : List Statement → Statement → AssemblyError → Prop}
    {before rest : List Statement} {e : AssemblyError} (h : FirstFault fault before rest e) :
    ∃ front, ∃ s ∈ rest, fault front s e := by
  induction h with
  | now hs => exact ⟨_, _, List.mem_cons_self, hs⟩
  | later _ _ ih =>
    obtain ⟨front, s, hs, hfault⟩ := ih
    exact ⟨front, s, List.mem_cons_of_mem _ hs, hfault⟩

end Ledboard.Assembly
