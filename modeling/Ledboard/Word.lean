/-
# Words

Every transaction on the board's bus moves one *word*: four bytes, kept in the order in which
they lie in memory.  Read as a number a word is big-endian, so the byte at the lowest address
weighs most; only the noise source fills a word the other way round (`ofUInt32LE`).

Conversions go through natural numbers instead of shifts: a statement about them is then a
statement about division by powers of 256.
-/

namespace Ledboard

/-- Four bytes in memory order. -/
structure Word where
  b0 : UInt8
  b1 : UInt8
  b2 : UInt8
  b3 : UInt8
  deriving DecidableEq, Repr, Inhabited

namespace Word

/-- How many bytes a word has. -/
def size : Nat := 4

/-- The word of four zero bytes. -/
def zero : Word := ⟨0, 0, 0, 0⟩

/-- The bytes of a word, lowest address first. -/
def toList (w : Word) : List UInt8 := [w.b0, w.b1, w.b2, w.b3]

/-- The first four bytes of a list; bytes that are missing count as zero. -/
def ofList (bytes : List UInt8) : Word :=
  ⟨bytes.getD 0 0, bytes.getD 1 0, bytes.getD 2 0, bytes.getD 3 0⟩

/-- The value of a word, first byte most significant. -/
def toNat (w : Word) : Nat :=
  w.b0.toNat * 16777216 + w.b1.toNat * 65536 + w.b2.toNat * 256 + w.b3.toNat

/-- The word of an unsigned number, first byte most significant. -/
def ofUInt32 (v : UInt32) : Word :=
  ⟨UInt8.ofNat (v.toNat / 16777216), UInt8.ofNat (v.toNat / 65536),
    UInt8.ofNat (v.toNat / 256), UInt8.ofNat v.toNat⟩

/-- The word of an unsigned number, first byte least significant. -/
def ofUInt32LE (v : UInt32) : Word :=
  ⟨UInt8.ofNat v.toNat, UInt8.ofNat (v.toNat / 256),
    UInt8.ofNat (v.toNat / 65536), UInt8.ofNat (v.toNat / 16777216)⟩

/-- A word read as an address. -/
def toUInt32 (w : Word) : UInt32 := UInt32.ofNat w.toNat

/-- A word read as a signed number. -/
def toInt32 (w : Word) : Int32 := w.toUInt32.toInt32

/-- The word of a signed number. -/
def ofInt32 (v : Int32) : Word := ofUInt32 v.toUInt32

theorem toNat_lt (w : Word) : w.toNat < 4294967296 := by
  have h0 := w.b0.toNat_lt
  have h1 := w.b1.toNat_lt
  have h2 := w.b2.toNat_lt
  have h3 := w.b3.toNat_lt
  unfold toNat
  omega

@[simp] theorem length_toList (w : Word) : w.toList.length = 4 := rfl

@[simp] theorem ofList_toList (w : Word) : ofList w.toList = w := rfl

end Word

/-- The bits of a number turned left by `n` places, for `n` from 1 to 31. -/
def rotateLeft (x n : UInt32) : UInt32 := (x <<< n) ||| (x >>> (32 - n))

end Ledboard
