/-
# Instructions

The processor knows nine operations.  An instruction is one to five bytes long: an opcode, then
a register number, a 32-bit immediate or a 16-bit displacement, both big-endian.  Every byte
string decodes: bytes that are missing count as zero, a register number keeps its low five bits
only, and a byte that is no opcode is an instruction of its own that does nothing.

`encode` writes register numbers as they are, so decoding undoes it for registers below 32.
-/
import Ledboard.Word
import Ledboard.Text.Numeral

namespace Ledboard

/-- One operation of the processor. -/
inductive Instruction where
  /-- stop for good -/
  | halt
  /-- push a register -/
  | pushReg (register : UInt8)
  /-- push a number -/
  | pushInt (value : Int32)
  /-- pop into a register -/
  | popReg (register : UInt8)
  /-- replace the two topmost words by their sum -/
  | add
  /-- replace the two topmost words by their product -/
  | mul
  /-- pop `b`, pop `a`, and jump if `a < b`; relative to the jump's own address -/
  | jumpIfLess (displacement : Int16)
  /-- replace an address by the word that the bus reads there -/
  | read
  /-- pop an address and then a word, and write the word there -/
  | write
  /-- a byte that is no opcode -/
  | unknown (opcode : UInt8)
  deriving DecidableEq, Repr, Inhabited

namespace Instruction

/-- How many registers an instruction can name. -/
def registerCount : Nat := 32

/-- The register number that an operand byte selects: its low five bits. -/
def registerOf (byte : UInt8) : UInt8 := UInt8.ofNat (byte.toNat % registerCount)

/-- The displacement in two bytes, big-endian. -/
def displacementOf (high low : UInt8) : Int16 :=
  (UInt16.ofNat (high.toNat * 256 + low.toNat)).toInt16

/-- The two bytes of a displacement, big-endian. -/
def displacementBytes (d : Int16) : List UInt8 :=
  [UInt8.ofNat (d.toUInt16.toNat / 256), UInt8.ofNat d.toUInt16.toNat]

/-- The instruction that starts a byte string.  Missing bytes count as zero. -/
def decode (bytes : List UInt8) : Instruction :=
  let byte := fun i => bytes.getD i 0
  match (byte 0).toNat with
  | 0 => .halt
  | 1 => .pushReg (registerOf (byte 1))
  | 2 => .pushInt (Word.toInt32 ⟨byte 1, byte 2, byte 3, byte 4⟩)
  | 3 => .popReg (registerOf (byte 1))
  | 4 => .add
  | 5 => .mul
  | 6 => .jumpIfLess (displacementOf (byte 1) (byte 2))
  | 7 => .read
  | 8 => .write
  | _ => .unknown (byte 0)

/-- How many bytes an instruction takes. -/
def width : Instruction → Nat
  | .pushInt _ => 5
  | .jumpIfLess _ => 3
  | .pushReg _ | .popReg _ => 2
  | _ => 1

/-- The bytes of an instruction. -/
def encode : Instruction → List UInt8
  | .halt => [0]
  | .pushReg r => [1, r]
  | .pushInt v => 2 :: (Word.ofInt32 v).toList
  | .popReg r => [3, r]
  | .add => [4]
  | .mul => [5]
  | .jumpIfLess d => 6 :: displacementBytes d
  | .read => [7]
  | .write => [8]
  | .unknown op => [op]

/-- The written form of an instruction. -/
def text : Instruction → String
  | .halt => "hlt"
  | .pushReg r => "push i" ++ Text.decimal r.toNat
  | .pushInt v => "push " ++ Text.decimal v.toInt
  | .popReg r => "pop i" ++ Text.decimal r.toNat
  | .add => "add"
  | .mul => "mul"
  | .jumpIfLess d => "jl " ++ Text.signed d.toInt
  | .read => "read"
  | .write => "write"
  | .unknown op => ".byte " ++ Text.hexByte op

theorem width_pos (i : Instruction) : 0 < i.width := by
  cases i <;> simp [width]

theorem length_encode (i : Instruction) : i.encode.length = i.width := by
  cases i <;> rfl

end Instruction

end Ledboard
