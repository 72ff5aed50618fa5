/-
# Decoding undoes encoding

An instruction is *canonical* if its encoding can be read back: a register number keeps its low
five bits only, and a byte that is no opcode must not be one.  For a canonical instruction,
decoding looks at no byte beyond the instruction's width (`decode_of_agree`), so it finds the
instruction at the start of any bytes that begin like its encoding.

The other way round, what is decoded is canonical, and encoding it gives the bytes back up to the
three topmost bits of a register's byte (`Spelled.encode_eq`).  The cases of decoding are told once
(`Spelled`).

Under this lie the round trips of the two big-endian operands, a 32-bit number and a 16-bit
displacement; both go through the numbers that the bytes spell.
-/
import Ledboard.Instruction

namespace Ledboard

/-! ## 1. Operands -/

namespace Word

theorem toNat_ofUInt32 (v : UInt32) : (ofUInt32 v).toNat = v.toNat := by
  have hv := v.toNat_lt
  simp only [toNat, ofUInt32, UInt8.toNat_ofNat']
  omega

/-- A number is read back from its word. -/
@[simp] theorem toUInt32_ofUInt32 (v : UInt32) : (ofUInt32 v).toUInt32 = v := by
  unfold toUInt32
  rw [toNat_ofUInt32, UInt32.ofNat_toNat]

@[simp] theorem toInt32_ofInt32 (v : Int32) : (ofInt32 v).toInt32 = v := by
  unfold toInt32 ofInt32
  rw [toUInt32_ofUInt32, Int32.toInt32_toUInt32]

/-- A word is read back from its number. -/
@[simp] theorem ofUInt32_toUInt32 (w : Word) : ofUInt32 w.toUInt32 = w := by
  have hnat : w.toUInt32.toNat = w.toNat := UInt32.toNat_ofNat_of_lt' w.toNat_lt
  have h0 := w.b0.toNat_lt
  have h1 := w.b1.toNat_lt
  have h2 := w.b2.toNat_lt
  have h3 := w.b3.toNat_lt
  obtain ⟨b0, b1, b2, b3⟩ := w
  simp only [ofUInt32, hnat, Word.mk.injEq, ← UInt8.toNat_inj, UInt8.toNat_ofNat', toNat] at *
  omega

@[simp] theorem ofInt32_toInt32 (w : Word) : ofInt32 w.toInt32 = w := by
  unfold ofInt32 toInt32
  rw [UInt32.toUInt32_toInt32, ofUInt32_toUInt32]

end Word

namespace Instruction

/-- A displacement is read back from its two bytes. -/
theorem displacementOf_bytes (d : Int16) :
    displacementOf (UInt8.ofNat (d.toUInt16.toNat / 256)) (UInt8.ofNat d.toUInt16.toNat) = d := by
  have hd := d.toUInt16.toNat_lt
  have hnat : (UInt8.ofNat (d.toUInt16.toNat / 256)).toNat * 256
      + (UInt8.ofNat d.toUInt16.toNat).toNat = d.toUInt16.toNat := by
    simp only [UInt8.toNat_ofNat']
    omega
  unfold displacementOf
  rw [hnat, UInt16.ofNat_toNat, Int16.toInt16_toUInt16]

/-- Two bytes are read back from their displacement. -/
theorem displacementBytes_displacementOf (high low : UInt8) :
    displacementBytes (displacementOf high low) = [high, low] := by
  have hhigh := high.toNat_lt
  have hlow := low.toNat_lt
  have hnat : (displacementOf high low).toUInt16.toNat = high.toNat * 256 + low.toNat := by
    unfold displacementOf
    rw [UInt16.toUInt16_toInt16, UInt16.toNat_ofNat']
    omega
  simp only [displacementBytes, hnat, List.cons.injEq, ← UInt8.toNat_inj, UInt8.toNat_ofNat',
    and_true]
  omega

/-- A register below 32 is selected by its own number. -/
theorem registerOf_of_lt {r : UInt8} (h : r.toNat < registerCount) : registerOf r = r := by
  unfold registerOf
  rw [Nat.mod_eq_of_lt h, UInt8.ofNat_toNat]

theorem toNat_registerOf_lt (byte : UInt8) : (registerOf byte).toNat < registerCount := by
  have hmod : byte.toNat % 32 < 32 := Nat.mod_lt _ (by decide)
  rw [registerOf, registerCount, UInt8.toNat_ofNat']
  omega

/-- A register number is the low five bits of its byte. -/
theorem registerOf_eq_and (byte : UInt8) : registerOf byte = byte &&& 0x1f := by
  have hmod : byte.toNat &&& 31 = byte.toNat % 32 := Nat.and_two_pow_sub_one_eq_mod byte.toNat 5
  have hsmall : byte.toNat &&& 31 ≤ 31 := Nat.and_le_right
  rw [← UInt8.toNat_inj, UInt8.toNat_and, registerOf, registerCount, UInt8.toNat_ofNat', ← hmod]
  exact Nat.mod_eq_of_lt (by omega)

/-! ## 2. Instructions -/

/-- Whether the encoding of an instruction can be read back. -/
def Canonical : Instruction → Prop
  | .pushReg r | .popReg r => r.toNat < registerCount
  | .unknown op => 8 < op.toNat
  | _ => True

/-- **Decoding looks at no byte beyond the width.**  Bytes that agree with the encoding of a
canonical instruction as far as it goes decode to it. -/
theorem decode_of_agree {i : Instruction} (hi : i.Canonical) {bytes : List UInt8}
    (h : ∀ k < i.width, bytes.getD k 0 = i.encode.getD k 0) : decode bytes = i := by
  cases i with
  | halt => simp only [decode, h 0 (by decide)]; rfl
  | add => simp only [decode, h 0 (by decide)]; rfl
  | mul => simp only [decode, h 0 (by decide)]; rfl
  | read => simp only [decode, h 0 (by decide)]; rfl
  | write => simp only [decode, h 0 (by decide)]; rfl
  | pushReg r =>
    simp only [decode, h 0 (by simp [width]), h 1 (by simp [width])]
    exact congrArg Instruction.pushReg (registerOf_of_lt hi)
  | popReg r =>
    simp only [decode, h 0 (by simp [width]), h 1 (by simp [width])]
    exact congrArg Instruction.popReg (registerOf_of_lt hi)
  | pushInt v =>
    simp only [decode, h 0 (by simp [width]), h 1 (by simp [width]), h 2 (by simp [width]),
      h 3 (by simp [width]), h 4 (by simp [width])]
    exact congrArg Instruction.pushInt (Word.toInt32_ofInt32 v)
  | jumpIfLess d =>
    simp only [decode, h 0 (by simp [width]), h 1 (by simp [width]), h 2 (by simp [width])]
    exact congrArg Instruction.jumpIfLess (displacementOf_bytes d)
  | unknown op =>
    have h0 : bytes.getD 0 0 = op := h 0 (by simp [width])
    have hop : 8 < op.toNat := hi
    obtain ⟨n, hn⟩ : ∃ n, op.toNat = n + 9 := ⟨op.toNat - 9, by omega⟩
    simp only [decode, h0, hn]

/-- What a canonical instruction encodes is decoded whatever follows. -/
theorem decode_encode_append {i : Instruction} (hi : i.Canonical) (rest : List UInt8) :
    decode (i.encode ++ rest) = i := by
  apply decode_of_agree hi
  intro k hk
  rw [← length_encode] at hk
  rw [List.getD_eq_getElem?_getD, List.getD_eq_getElem?_getD, List.getElem?_append_left hk]

/-! ## 3. Bytes -/

/-- The instruction that bytes spell, which the first of them decides. -/
inductive Spelled (byte : Nat → UInt8) : Instruction → Prop where
  | halt (h : byte 0 = 0) : Spelled byte .halt
  | pushReg (h : byte 0 = 1) : Spelled byte (.pushReg (registerOf (byte 1)))
  | pushInt (h : byte 0 = 2) :
      Spelled byte (.pushInt (Word.toInt32 ⟨byte 1, byte 2, byte 3, byte 4⟩))
  | popReg (h : byte 0 = 3) : Spelled byte (.popReg (registerOf (byte 1)))
  | add (h : byte 0 = 4) : Spelled byte .add
  | mul (h : byte 0 = 5) : Spelled byte .mul
  | jumpIfLess (h : byte 0 = 6) : Spelled byte (.jumpIfLess (displacementOf (byte 1) (byte 2)))
  | read (h : byte 0 = 7) : Spelled byte .read
  | write (h : byte 0 = 8) : Spelled byte .write
  | unknown (h : 8 < (byte 0).toNat) : Spelled byte (.unknown (byte 0))

theorem spelled_decode (bytes : List UInt8) :
    Spelled (fun k => bytes.getD k 0) (decode bytes) := by
  unfold decode
  simp only
  split
  case h_1 h => exact .halt (UInt8.toNat_inj.mp h)
  case h_2 h => exact .pushReg (UInt8.toNat_inj.mp h)
  case h_3 h => exact .pushInt (UInt8.toNat_inj.mp h)
  case h_4 h => exact .popReg (UInt8.toNat_inj.mp h)
  case h_5 h => exact .add (UInt8.toNat_inj.mp h)
  case h_6 h => exact .mul (UInt8.toNat_inj.mp h)
  case h_7 h => exact .jumpIfLess (UInt8.toNat_inj.mp h)
  case h_8 h => exact .read (UInt8.toNat_inj.mp h)
  case h_9 h => exact .write (UInt8.toNat_inj.mp h)
  case h_10 h0 h1 h2 h3 h4 h5 h6 h7 h8 =>
    apply Spelled.unknown
    simp only [imp_false] at h0 h1 h2 h3 h4 h5 h6 h7 h8
    omega

/-- Whether the second byte of an instruction is a register number. -/
def namesRegister : Instruction → Bool
  | .pushReg _ | .popReg _ => true
  | _ => false

variable {byte : Nat → UInt8} {i : Instruction}

/-- What bytes spell can be read back. -/
theorem Spelled.canonical (h : Spelled byte i) : i.Canonical := by
  cases h with
  | pushReg => exact toNat_registerOf_lt _
  | popReg => exact toNat_registerOf_lt _
  | unknown h => exact h
  | _ => trivial

/-- **Encoding gives the bytes back**, but of a register's byte the low five bits only. -/
theorem Spelled.encode_eq (h : Spelled byte i) :
    i.encode = (List.range i.width).map fun k =>
      if k = 1 ∧ i.namesRegister = true then byte k &&& 0x1f else byte k := by
  cases h <;> simp [encode, width, namesRegister, List.range_succ, Word.toList,
    displacementBytes_displacementOf, registerOf_eq_and, *]

end Instruction

end Ledboard
