/-
# SHA-1

The digest of a byte string, twenty bytes long.  The message is padded to a multiple of 64
bytes by one bit, zeros and the message's length in bits; each block of 64 bytes is expanded to
eighty words, which stir five words of state one after another.
-/
import Ledboard.Word

namespace Ledboard.Sha1

/-- The five words that are stirred. -/
structure State where
  a : UInt32
  b : UInt32
  c : UInt32
  d : UInt32
  e : UInt32
  deriving DecidableEq

/-- The state before the first block. -/
def start : State := ⟨0x67452301, 0xefcdab89, 0x98badcfe, 0x10325476, 0xc3d2e1f0⟩

/-- Word by word sum. -/
def State.add (s t : State) : State := ⟨s.a + t.a, s.b + t.b, s.c + t.c, s.d + t.d, s.e + t.e⟩

/-- The bytes of the state, each word big-endian. -/
def State.bytes (s : State) : List UInt8 :=
  [s.a, s.b, s.c, s.d, s.e].flatMap (fun w => (Word.ofUInt32 w).toList)

/-- A 64-bit number in eight bytes, big-endian. -/
def lengthBytes (n : Nat) : List UInt8 :=
  (Word.ofUInt32 (UInt32.ofNat (n / 4294967296))).toList ++ (Word.ofUInt32 (UInt32.ofNat n)).toList

/-- How many zero bytes stand between the end mark and the length. -/
def zeros (length : Nat) : Nat := (119 - length % 64) % 64

/-- The padded message. -/
def pad (message : List UInt8) : List UInt8 :=
  message ++ [0x80] ++ List.replicate (zeros message.length) 0 ++ lengthBytes (8 * message.length)

/-- The first `n` words of a byte string, big-endian. -/
def words : Nat → List UInt8 → List UInt32
  | 0, _ => []
  | n + 1, bytes => (Word.ofList bytes).toUInt32 :: words n (bytes.drop 4)

/-- Adds `n` words to a schedule, each from four earlier ones. -/
def extend : Nat → Array UInt32 → Array UInt32
  | 0, w => w
  | n + 1, w =>
    let back := fun k => w.getD (w.size - k) 0
    extend n (w.push (rotateLeft (back 3 ^^^ back 8 ^^^ back 14 ^^^ back 16) 1))

/-- The eighty words of a block. -/
def schedule (block : List UInt8) : List UInt32 := (extend 64 (words 16 block).toArray).toList

/-- How a round combines three words, and the constant that it adds. -/
def roundTerms (round : Nat) (b c d : UInt32) : UInt32 × UInt32 :=
  if round < 20 then ((b &&& c) ||| (~~~b &&& d), 0x5a827999)
  else if round < 40 then (b ^^^ c ^^^ d, 0x6ed9eba1)
  else if round < 60 then ((b &&& c) ||| (b &&& d) ||| (c &&& d), 0x8f1bbcdc)
  else (b ^^^ c ^^^ d, 0xca62c1d6)

/-- Stirs the words of a schedule in, from a round on. -/
def stir : Nat → State → List UInt32 → State
  | _, s, [] => s
  | round, s, w :: rest =>
    let (f, k) := roundTerms round s.b s.c s.d
    stir (round + 1) ⟨rotateLeft s.a 5 + f + s.e + k + w, s.a, rotateLeft s.b 30, s.c, s.d⟩ rest

/-- Takes in `n` blocks. -/
def absorb : Nat → State → List UInt8 → State
  | 0, s, _ => s
  | n + 1, s, bytes => absorb n (s.add (stir 0 s (schedule (bytes.take 64)))) (bytes.drop 64)

/-- The digest of a message. -/
def digest (message : List UInt8) : List UInt8 :=
  let padded := pad message
  (absorb (padded.length / 64) start padded).bytes

theorem length_bytes (s : State) : s.bytes.length = 20 := rfl

theorem length_digest (message : List UInt8) : (digest message).length = 20 := length_bytes _

end Ledboard.Sha1
