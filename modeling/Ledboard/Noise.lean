/-
# Noise

The noise source answers every read with the next 32-bit sample of a stream, low byte first, and
ignores writes.  A stream is a function from positions to samples, so that the source itself is
a position in it.  There are two kinds of stream.

* A *counter* starts at a 64-bit number and adds a fixed step, modulo 2^64, after each sample.
* A *keyed* stream is the output of the ChaCha block function with twelve rounds, a zero nonce
  and a block counter from zero.  A 64-bit seed is expanded to the eight key words by a
  permuted congruential generator.
-/
import Ledboard.Word

namespace Ledboard

namespace ChaCha

/-- The sixteen words that the block function works on. -/
abbrev State := Vector UInt32 16

/-- One half of a quarter round: `a` takes in `b`, and `d` takes in `a` and is turned. -/
def mix (s : State) (a b d : Fin 16) (turn : UInt32) : State :=
  let s := s.set a (s[a] + s[b])
  s.set d (rotateLeft (s[d] ^^^ s[a]) turn)

/-- The quarter round on four words of the state. -/
def quarterRound (s : State) (a b c d : Fin 16) : State :=
  mix (mix (mix (mix s a b d 16) c d b 12) a b d 8) c d b 7

/-- A round on the columns, then a round on the diagonals. -/
def doubleRound (s : State) : State :=
  let s := quarterRound s 0 4 8 12
  let s := quarterRound s 1 5 9 13
  let s := quarterRound s 2 6 10 14
  let s := quarterRound s 3 7 11 15
  let s := quarterRound s 0 5 10 15
  let s := quarterRound s 1 6 11 12
  let s := quarterRound s 2 7 8 13
  quarterRound s 3 4 9 14

/-- The state from which block `counter` of a key is made. -/
def initial (key : Vector UInt32 8) (counter : UInt64) : State :=
  #v[0x61707865, 0x3320646e, 0x79622d32, 0x6b206574,
    key[0], key[1], key[2], key[3], key[4], key[5], key[6], key[7],
    counter.toUInt32, (counter >>> 32).toUInt32, 0, 0]

/-- Block `counter` of a key, with twelve rounds. -/
def block (key : Vector UInt32 8) (counter : UInt64) : State :=
  let start := initial key counter
  let mixed := (List.range 6).foldl (fun s _ => doubleRound s) start
  mixed.zipWith (· + ·) start

/-- The generator behind a seed: its next state. -/
def expandNext (s : UInt64) : UInt64 := s * 6364136223846793005 + 11634580027462260723

/-- The key word that a state of that generator yields. -/
def expandWord (s : UInt64) : UInt32 :=
  let x := (((s >>> 18) ^^^ s) >>> 27).toUInt32
  let turn := (s >>> 59).toUInt32
  (x >>> turn) ||| (x <<< ((32 - turn) % 32))

/-- The states that a seed runs through. -/
def expandStates : Nat → UInt64 → List UInt64
  | 0, _ => []
  | n + 1, s => expandNext s :: expandStates n (expandNext s)

theorem length_expandStates (n : Nat) (s : UInt64) : (expandStates n s).length = n := by
  induction n generalizing s with
  | zero => rfl
  | succ n ih => simp [expandStates, ih]

/-- The key of a seed. -/
def keyOfSeed (seed : UInt64) : Vector UInt32 8 :=
  ⟨((expandStates 8 seed).map expandWord).toArray, by simp [length_expandStates]⟩

end ChaCha

/-- A stream of samples. -/
inductive NoiseStream where
  /-- counts from `start` in steps of `step` -/
  | counter (start step : UInt64)
  /-- the ChaCha stream of a key -/
  | keyed (key : Vector UInt32 8)
  deriving DecidableEq

/-- The sample at a position of the stream. -/
def NoiseStream.sample : NoiseStream → Nat → UInt32
  | .counter start step, n => (start + step * UInt64.ofNat n).toUInt32
  | .keyed key, n =>
    (ChaCha.block key (UInt64.ofNat (n / 16))).get ⟨n % 16, Nat.mod_lt _ (by decide)⟩

/-- A noise source: a stream and how many samples were taken from it. -/
structure Noise where
  stream : NoiseStream
  taken : Nat
  deriving DecidableEq

namespace Noise

/-- A source that counts. -/
def counting (start step : UInt64) : Noise := ⟨.counter start step, 0⟩

/-- The source that a seed determines. -/
def ofSeed (seed : UInt64) : Noise := ⟨.keyed (ChaCha.keyOfSeed seed), 0⟩

/-- The next sample as a word, and the source after it. -/
def read (n : Noise) : Word × Noise :=
  (Word.ofUInt32LE (n.stream.sample n.taken), { n with taken := n.taken + 1 })

/-- The short form of a noise source. -/
def describe : String := "Noise \x7b .. \x7d"

end Noise

end Ledboard
