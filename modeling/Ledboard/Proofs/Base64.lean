/-
# Base64 is read back

Bytes are written in letters of six bits, and the other way round four letters are a number of
twenty-four bits, which is three bytes.  At the end `=` stands for letters that are not needed; the
bits that the letters before it have too many are zero (`decode?`).

* What was written for some bytes is read as these bytes (`decode?_encodeChars`).
* Two bytes more than a multiple of three are written with one `=` at the end, and with letters
  otherwise (`exists_letters`).
-/
import Ledboard.Digest.Base64

namespace Ledboard.Base64

/-! ## 1. Reading -/

/-- The letters, in the order of their values. -/
def alphabet : List Char :=
  "ABCDEFGHIJKLMNOPQRSTUVWXYZabcdefghijklmnopqrstuvwxyz0123456789+/".toList

/-- The value of a letter. -/
def sextet? (c : Char) : Option Nat := alphabet.idxOf? c

/-- The number that four letters are, the first of them most significant. -/
def quantum? (a b c d : Char) : Option Nat := do
  let a ← sextet? a
  let b ← sextet? b
  let c ← sextet? c
  let d ← sextet? d
  return ((a * 64 + b) * 64 + c) * 64 + d

/-- The three bytes of a number, the first of them most significant. -/
def octets (n : Nat) : List UInt8 :=
  [UInt8.ofNat (n / 65536), UInt8.ofNat (n / 256), UInt8.ofNat n]

/-- The first bytes of a number, if the others are zero. -/
def octetsUpTo? (count n : Nat) : Option (List UInt8) :=
  if (octets n).drop count = List.replicate (3 - count) 0 then some ((octets n).take count) else none

/-- The bytes that are written as some characters. -/
def decode? : List Char → Option (List UInt8)
  | [] => some []
  | [a, b, '=', '='] => (quantum? a b 'A' 'A').bind (octetsUpTo? 1)
  | [a, b, c, '='] => (quantum? a b c 'A').bind (octetsUpTo? 2)
  | a :: b :: c :: d :: rest =>
    (quantum? a b c d).bind fun n => (decode? rest).map (octets n ++ ·)
  | _ => none

/-! ## 2. What was written -/

variable {n : Nat} {bytes : List UInt8}

theorem sextet?_letter (h : n < 64) : sextet? (letter n) = some n := by
  have hall : ∀ n : Fin 64, sextet? (letter n) = some n.val := by decide +kernel
  exact hall ⟨n, h⟩

theorem letter_mem_alphabet (h : n < 64) : letter n ∈ alphabet := by
  have hall : ∀ n : Fin 64, letter n ∈ alphabet := by decide +kernel
  exact hall ⟨n, h⟩

theorem letter_ne_fill (h : n < 64) : letter n ≠ '=' := by
  have hall : ∀ n : Fin 64, letter n ≠ '=' := by decide +kernel
  exact hall ⟨n, h⟩

/-- Four letters are the number of their values. -/
theorem quantum?_letter {a b c d : Nat} (ha : a < 64) (hb : b < 64) (hc : c < 64) (hd : d < 64) :
    quantum? (letter a) (letter b) (letter c) (letter d) =
      some (((a * 64 + b) * 64 + c) * 64 + d) := by
  simp only [quantum?, sextet?_letter, ha, hb, hc, hd]
  rfl

/-- A number of three bytes is these bytes. -/
theorem octets_toNat (a b c : UInt8) :
    octets (a.toNat * 65536 + b.toNat * 256 + c.toNat) = [a, b, c] := by
  have ha := a.toNat_lt
  have hb := b.toNat_lt
  have hc := c.toNat_lt
  simp only [octets, List.cons.injEq, and_true, ← UInt8.toNat_inj, UInt8.toNat_ofNat']
  omega

/-- **What was written for some bytes is read as these bytes.** -/
theorem decode?_encodeChars (bytes : List UInt8) : decode? (encodeChars bytes) = some bytes := by
  have hzero : letter 0 = 'A' := rfl
  fun_induction encodeChars bytes with
  | case1 => rfl
  | case2 a =>
    have ha := a.toNat_lt
    have hvalue : ((a.toNat / 4 * 64 + a.toNat % 4 * 16) * 64 + 0) * 64 + 0 =
        a.toNat * 65536 + (0 : UInt8).toNat * 256 + (0 : UInt8).toNat := by
      simp only [UInt8.toNat_zero]
      omega
    rw [decode?, ← hzero, quantum?_letter (by omega) (by omega) (by omega) (by omega), hvalue,
      Option.bind_some, octetsUpTo?, octets_toNat]
    rfl
  | case3 a b =>
    have ha := a.toNat_lt
    have hb := b.toNat_lt
    have hvalue : ((a.toNat / 4 * 64 + (a.toNat % 4 * 16 + b.toNat / 16)) * 64 +
        b.toNat % 16 * 4) * 64 + 0 = a.toNat * 65536 + b.toNat * 256 + (0 : UInt8).toNat := by
      simp only [UInt8.toNat_zero]
      omega
    rw [decode?, ← hzero, quantum?_letter (by omega) (by omega) (by omega) (by omega), hvalue,
      Option.bind_some, octetsUpTo?, octets_toNat]
    · rfl
    · exact fun hfill => absurd hfill (letter_ne_fill (by omega))
  | case4 a b c rest ih =>
    have ha := a.toNat_lt
    have hb := b.toNat_lt
    have hc := c.toNat_lt
    have hvalue : ((a.toNat / 4 * 64 + (a.toNat % 4 * 16 + b.toNat / 16)) * 64 +
        (b.toNat % 16 * 4 + c.toNat / 64)) * 64 + c.toNat % 64 =
          a.toNat * 65536 + b.toNat * 256 + c.toNat := by
      omega
    have hlast : letter (c.toNat % 64) ≠ '=' := letter_ne_fill (by omega)
    rw [decode?, quantum?_letter (by omega) (by omega) (by omega) (by omega), hvalue,
      Option.bind_some, ih, octets_toNat]
    · rfl
    · exact fun _ hfill => absurd hfill hlast
    · exact fun hfill => absurd hfill hlast

/-- **Two bytes more than a multiple of three** are written in letters and one `=`. -/
theorem exists_letters (h : bytes.length % 3 = 2) :
    ∃ letters, encodeChars bytes = letters ++ ['='] ∧
      3 * letters.length = 4 * bytes.length + 1 ∧ ∀ c ∈ letters, c ∈ alphabet := by
  fun_induction encodeChars bytes with
  | case1 => simp at h
  | case2 a => simp at h
  | case3 a b =>
    have ha := a.toNat_lt
    have hb := b.toNat_lt
    refine ⟨[_, _, _], rfl, rfl, ?_⟩
    simp only [List.forall_mem_cons, List.not_mem_nil, false_imp_iff, implies_true, and_true]
    exact ⟨letter_mem_alphabet (by omega), letter_mem_alphabet (by omega),
      letter_mem_alphabet (by omega)⟩
  | case4 a b c rest ih =>
    have ha := a.toNat_lt
    have hb := b.toNat_lt
    have hc := c.toNat_lt
    simp only [List.length_cons] at h
    obtain ⟨letters, heq, hlength, hletters⟩ := ih (by omega)
    refine ⟨_ :: _ :: _ :: _ :: letters, by rw [heq]; rfl, ?_, ?_⟩
    · simp only [List.length_cons]
      omega
    · simp only [List.forall_mem_cons]
      exact ⟨letter_mem_alphabet (by omega), letter_mem_alphabet (by omega),
        letter_mem_alphabet (by omega), letter_mem_alphabet (by omega), hletters⟩

end Ledboard.Base64
