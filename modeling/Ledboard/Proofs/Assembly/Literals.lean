/-
# Number literals are exact

A literal is an optional `-`, a radix mark and digits, of which there may be any number.  Its value
is the integer that the digits stand for, however large that is.  A push of a literal is assembled
if 32 bits hold the value, with or without a sign, and is refused as a whole otherwise
(`literals_are_exact`).

* **Digits** (`digitValue?_of_isDigitOf`).  A digit counts its place in a list of all digits, and
  letters count in both cases.
* **Literals** (`Numeral.ofChars_text`).  The longest literal at the start of a literal's text is
  this text: decimal digits do not start with a radix mark, and everything is a digit up to the end.
* **Limits** (`Numeral.value?_literal`).  The magnitude is compared with a limit that depends on the
  sign, and this comes to the same as comparing the value with both bounds.
-/
import Mathlib.Data.Bool.AllAny
import Mathlib.Data.Nat.Digits.Defs
import Ledboard.Proofs.Assembly.Gaps
import Ledboard.Proofs.Encoding

namespace Ledboard.Assembly

/-! ## 1. Digits -/

/-- How the digits of a number are to be read. -/
inductive Radix where
  | decimal
  | hexadecimal
  | binary
  deriving DecidableEq, Repr

namespace Radix

/-- What stands before the digits. -/
def mark : Radix → List Char
  | .decimal => []
  | .hexadecimal => ['0', 'x']
  | .binary => ['0', 'b']

/-- How many different digits there are. -/
def base : Radix → Nat
  | .decimal => 10
  | .hexadecimal => 16
  | .binary => 2

theorem base_pos (r : Radix) : 0 < r.base := by
  cases r <;> decide

end Radix

/-- All digits, in the order of their values. -/
def allDigits : List Char := "0123456789abcdef".toList

/-- The value of a digit, whatever its case. -/
def digitValue (c : Char) : Nat := allDigits.idxOf c.toLower

/-- A digit of a base. -/
def IsDigitIn (base : Nat) (c : Char) : Prop := c.toLower ∈ allDigits.take base

instance (base : Nat) (c : Char) : Decidable (IsDigitIn base c) :=
  inferInstanceAs (Decidable (_ ∈ _))

variable {r : Radix} {c : Char} {digits gap : List Char}

/-- Digits are ASCII. -/
theorem isAscii_of_isDigitIn (h : IsDigitIn r.base c) : IsAscii c := by
  have hlower : c.toLower.toNat < 128 := by
    have hall : ∀ d ∈ allDigits, d.toNat < 128 := List.all_iff_forall_prop.mp (by decide)
    exact hall _ (List.mem_of_mem_take h)
  unfold Char.toLower at hlower
  split at hlower
  · rename_i hupper
    exact Nat.lt_of_le_of_lt (UInt32.le_iff_toNat_le.mp hupper.2) (by decide)
  · exact hlower

/-- What holds of the digits of a radix among 128 characters holds of all its digits. -/
theorem forall_isDigitIn {p : Char → Prop}
    (h : ∀ n : Fin 128, IsDigitIn r.base (Char.ofNat n) → p (Char.ofNat n))
    (hc : IsDigitIn r.base c) : p c := by
  have hsame : Char.ofNat c.toNat = c := Char.ofNat_toNat c
  have hp := h ⟨c.toNat, isAscii_of_isDigitIn hc⟩
  rw [hsame] at hp
  exact hp hc

/-- **A digit is read as its value.** -/
theorem digitValue?_of_isDigitIn (hc : IsDigitIn r.base c) :
    Text.digitValue? r.base c = some (digitValue c) := by
  refine forall_isDigitIn (p := fun c => Text.digitValue? r.base c = some (digitValue c)) ?_ hc
  cases r <;> decide +kernel

theorem isDigit_of_isDigitIn (hc : IsDigitIn Radix.decimal.base c) : c.isDigit = true := by
  refine forall_isDigitIn (r := .decimal) (p := fun c => c.isDigit = true) ?_ hc
  decide +kernel

/-! ## 2. Literals -/

/-- A literal: a sign or none, a radix, and one digit of it at least. -/
structure Numeral where
  negative : Bool
  radix : Radix
  digits : List Char
  nonempty : digits ≠ []
  valid : ∀ c ∈ digits, IsDigitIn radix.base c

namespace Numeral

variable (n : Numeral)

/-- The sign of a literal. -/
def sign : List Char := if n.negative then ['-'] else []

/-- The characters of a literal. -/
def text : List Char := n.sign ++ n.radix.mark ++ n.digits

/-- What the digits of a literal stand for, the last of them counting least. -/
def magnitude : Nat := Nat.ofDigits n.radix.base (n.digits.reverse.map digitValue)

/-- The value of a literal. -/
def value : Int := if n.negative then -n.magnitude else n.magnitude

/-- Whether 32 bits hold the value, with or without a sign. -/
def Fits : Prop := -2 ^ 31 ≤ n.value ∧ n.value ≤ 2 ^ 32 - 1

instance : Decidable n.Fits := inferInstanceAs (Decidable (_ ∧ _))

/-- The parts of a literal. -/
def literal : Literal := ⟨n.sign, n.radix.mark, n.radix.base, n.digits⟩

/-- Digits behind a radix mark are a literal up to their end. -/
theorem unsigned_text : Literal.unsigned n.sign (n.radix.mark ++ n.digits) = n.literal := by
  obtain ⟨negative, radix, digits, nonempty, valid⟩ := n
  have hdigits : ∀ c ∈ digits, Text.isDigitOf radix.base c = true := by
    intro c hc
    rw [Text.isDigitOf, digitValue?_of_isDigitIn (valid c hc)]
    rfl
  have hall := List.takeWhile_eq_self_iff.mpr hdigits
  cases radix with
  | decimal => exact unsigned_of_digits (fun c hc => isDigit_of_isDigitIn (valid c hc)) _
  | hexadecimal => exact congrArg (Literal.mk _ _ _) hall
  | binary => exact congrArg (Literal.mk _ _ _) hall

/-- A literal starts with its sign or with a digit. -/
theorem exists_text : ∃ c tail, n.text = c :: tail ∧ (c.isDigit = true ∨ c = '-') ∧
    (n.negative = true → c = '-') ∧ Literal.ofChars (c :: tail) = n.literal := by
  have hunsigned := n.unsigned_text
  have htext : n.text = n.sign ++ (n.radix.mark ++ n.digits) := List.append_assoc _ _ _
  cases hnegative : n.negative with
  | true =>
    have hsign : n.sign = ['-'] := if_pos hnegative
    rw [hsign] at htext hunsigned
    exact ⟨'-', _, htext, .inr rfl, fun _ => rfl, hunsigned⟩
  | false =>
    have hsign : n.sign = [] := if_neg (Bool.eq_false_iff.mp hnegative)
    obtain ⟨c, tail, hbody, hc⟩ :
        ∃ c tail, n.radix.mark ++ n.digits = c :: tail ∧ c.isDigit = true := by
      cases hradix : n.radix with
      | decimal =>
        obtain ⟨c, tail, hdigits⟩ := List.exists_cons_of_ne_nil n.nonempty
        have hvalid := n.valid c (hdigits ▸ List.mem_cons_self)
        rw [hradix] at hvalid
        exact ⟨c, tail, hdigits, isDigit_of_isDigitIn hvalid⟩
      | hexadecimal => exact ⟨'0', _, rfl, rfl⟩
      | binary => exact ⟨'0', _, rfl, rfl⟩
    have hminus : c ≠ '-' := by
      rintro rfl
      exact absurd hc (by decide)
    rw [hsign, hbody] at htext hunsigned
    exact ⟨c, tail, htext, .inl hc, nofun, (Literal.ofChars_of_ne_minus hminus tail).trans hunsigned⟩

/-- The digits are read as the magnitude. -/
theorem addDigits_eq : Text.addDigits n.radix.base digitValue 0 n.digits = n.magnitude := by
  rw [magnitude, Nat.ofDigits_eq_foldr, List.map_reverse, List.foldr_reverse, List.foldl_map,
    Text.addDigits]
  simp only [Nat.cast_id, Nat.add_comm, Nat.mul_comm]

/-- **The value of a literal is found if 32 bits hold it.** -/
theorem value?_literal : n.literal.value? = if n.Fits then some n.value else none := by
  have hread : Text.valueUpTo? n.literal.base n.literal.limit n.literal.digits =
      if n.magnitude ≤ n.literal.limit then some n.magnitude else none := by
    rw [← n.addDigits_eq]
    exact Text.valueUpTo?_eq n.radix.base_pos fun c hc => digitValue?_of_isDigitIn (n.valid c hc)
  have hfits : n.magnitude ≤ n.literal.limit ↔ n.Fits := by
    cases hnegative : n.negative <;>
      simp only [literal, Literal.limit, sign, Fits, value, hnegative, if_true, Bool.false_eq_true,
        if_false, List.isEmpty_nil, List.isEmpty_cons] <;> omega
  have hvalue : (if n.literal.sign.isEmpty then (n.magnitude : Int) else -n.magnitude) = n.value := by
    cases hnegative : n.negative <;> simp [literal, sign, value, hnegative]
  rw [Literal.value?, hread]
  by_cases h : n.Fits
  · rw [if_pos (hfits.mpr h), if_pos h]
    exact congrArg some hvalue
  · rw [if_neg (fun hle => h (hfits.mp hle)), if_neg h]
    rfl

theorem text_literal : n.literal.text = n.text := rfl

/-- **A literal is read as its value**, as a whole, where the source ends. -/
theorem lexemeAt_text {c : Char} {tail : List Char} (htext : n.text = c :: tail) (place : Nat) :
    lexemeAt place c tail =
      if n.Fits then .ok (.number (Int32.ofInt n.value), tail.length)
      else .error (.numberOutOfRange place (String.ofList n.text)) := by
  obtain ⟨d, rest, heq, hstart, -, hliteral⟩ := n.exists_text
  obtain ⟨rfl, rfl⟩ := List.cons.inj (htext.symm.trans heq)
  have hdirective : c ≠ '#' := by
    rintro rfl
    exact absurd hstart (by decide)
  have hnumber : (c.isDigit || c == '-') = true := by rwa [Bool.or_eq_true, beq_iff_eq]
  have hdigits : n.literal.digits.isEmpty = false := List.isEmpty_eq_false_iff.mpr n.nonempty
  have hlength : n.literal.text.length - 1 = tail.length := by
    rw [n.text_literal, htext, List.length_cons, Nat.add_sub_cancel]
  simp only [lexemeAt, if_neg hdirective, if_pos hnumber, hliteral, numberLexeme, hdigits,
    if_neg Bool.false_ne_true, n.value?_literal, hlength]
  by_cases hfits : n.Fits
  · simp only [if_pos hfits]
    rfl
  · simp only [if_neg hfits]
    rfl

end Numeral

/-! ## 3. The whole -/

variable {n : Numeral}

/-- A push of a literal, with white space and comments between the two. -/
def pushSource (gap : List Char) (n : Numeral) : String :=
  String.ofList ("push".toList ++ gap ++ n.text)

/-- The keyword and what follows it are passed over, if the literal does not go on with the
keyword. -/
theorem scannedTo_text (hgap : Gap gap) (hapart : gap ≠ [] ∨ n.negative = true) :
    ScannedTo 0 (pushSource gap n).toList [⟨.keyword .push, 0, 4⟩]
      (utf8Length ("push".toList ++ gap)) n.text := by
  have hends : ∀ c ∈ (gap ++ n.text).head?, isWordPart c = false := by
    cases gap with
    | nil =>
      obtain ⟨c, tail, htext, -, hminus, -⟩ := n.exists_text
      obtain rfl := hminus (hapart.resolve_left (absurd rfl))
      rw [htext]
      rintro _ ⟨⟩
      decide
    | cons c gap =>
      rintro _ ⟨⟩
      exact hgap.ends
  have hword : IsWord "push".toList (.keyword .push) := .keyword (by decide)
  have hpush : Lexes 'p' "ush".toList (.keyword .push) 3 := .word (by decide) rfl hword
  have hkeyword : ScannedTo 0 ("push".toList ++ (gap ++ n.text)) [⟨.keyword .push, 0, 4⟩] 4
      (gap ++ n.text) :=
    .token (hpush.append hends) (.here 4 _)
  have hlength : utf8Length ("push".toList ++ gap) = 4 + utf8Length gap := utf8Length_append _ _
  have hsource : (pushSource gap n).toList = "push".toList ++ gap ++ n.text := String.toList_ofList
  rw [hsource, List.append_assoc, hlength]
  exact hkeyword.trans (hgap.scannedTo 4 _)

/-- The word of a number is the number modulo 2^32. -/
theorem toNat_ofInt32 (v : Int) : ((Word.ofInt32 (Int32.ofInt v)).toNat : Int) = v % 2 ^ 32 := by
  have hbits : (Int32.ofInt v).toUInt32.toNat = (v % 2 ^ 32).toNat := BitVec.toNat_ofInt v
  rw [Word.ofInt32, Word.toNat_ofUInt32, hbits]
  omega

/-- A push of a literal that fits is a program of one row. -/
theorem assemble_of_fits (hgap : Gap gap) (hapart : gap ≠ [] ∨ n.negative = true)
    (hfits : n.Fits) :
    ∃ p, assemble (pushSource gap n) = .ok p ∧
      p.bytes = 0x02 :: (Word.ofInt32 (Int32.ofInt n.value)).toList := by
  obtain ⟨c, tail, htext, -, -, -⟩ := n.exists_text
  have hlexes : Lexes c (tail ++ []) (.number (Int32.ofInt n.value)) tail.length := by
    rw [List.append_nil]
    exact lexes_of_lexemeAt ((n.lexemeAt_text htext 0).trans (if_pos hfits))
  have hpassed := scannedTo_text hgap hapart
  rw [htext, ← List.append_nil tail] at hpassed
  let keyword : Token := ⟨.keyword .push, 0, 4⟩
  let number : Token := ⟨.number (Int32.ofInt n.value), utf8Length ("push".toList ++ gap),
    tail.length + 1⟩
  have htokens : tokens (pushSource gap n) = .ok [keyword, number] :=
    tokens_eq_ok_iff.mpr (hpassed.scanned (.token hlexes (.nil _)))
  let s : Statement := .between keyword number (.emit (.pushInt (Int32.ofInt n.value)))
  have hspells : Spells [keyword, number] s := .unary rfl rfl
  have hparse := parse_eq_ok_iff.mpr ⟨_, htokens, .cons hspells .nil⟩
  have hassemble : assemble (pushSource gap n) = link [s] := by
    rw [assemble, hparse]
    rfl
  exact ⟨_, hassemble.trans (link_of_plain (.emit _)), List.append_nil _⟩

/-- A push of any other literal is refused at the literal. -/
theorem assemble_of_not_fits (hgap : Gap gap) (hapart : gap ≠ [] ∨ n.negative = true)
    (hlarge : ¬ n.Fits) :
    assemble (pushSource gap n) =
      .error (.numberOutOfRange (utf8Length ("push".toList ++ gap)) (String.ofList n.text)) := by
  obtain ⟨c, tail, htext, hstart, -, -⟩ := n.exists_text
  have hpassed := scannedTo_text hgap hapart
  rw [htext] at hpassed
  have hblank : Text.isAsciiBlank c = false ∧ c ≠ '/' := not_filler_of_start (.inr (.inl hstart))
  have hrefused := (n.lexemeAt_text htext (utf8Length ("push".toList ++ gap))).trans (if_neg hlarge)
  have htokens := tokens_eq_error_iff.mpr
    ⟨_, _, _, _, hpassed, hblank.1, fun hslash => hblank.2 hslash.1, hrefused⟩
  rw [assemble, parse, htokens]
  rfl

/-- **Number literals are exact.**  Let a source be `push` and a literal behind it, with white space
or comments between them, or none if the literal has a sign.  Let the value of the literal be the
integer that it stands for, however many digits it has.  Then

* the source is assembled exactly if the value lies between -2^31 and 2^32 - 1;
* the program is a byte 2 and four bytes, which are the value modulo 2^32 with the most significant
  byte first;
* otherwise the source is refused because of the number, where the literal starts, with its whole
  text. -/
theorem literals_are_exact (n : Numeral) (hgap : Gap gap)
    (hapart : gap ≠ [] ∨ n.negative = true) :
    let source := pushSource gap n
    ((∃ p, assemble source = .ok p) ↔ -2 ^ 31 ≤ n.value ∧ n.value ≤ 2 ^ 32 - 1) ∧
      (∀ p, assemble source = .ok p →
        ∃ w : Word, p.bytes = 0x02 :: w.toList ∧ (w.toNat : Int) = n.value % 2 ^ 32) ∧
      (¬ (-2 ^ 31 ≤ n.value ∧ n.value ≤ 2 ^ 32 - 1) → assemble source =
        .error (.numberOutOfRange (utf8Length ("push".toList ++ gap)) (String.ofList n.text))) := by
  intro source
  refine ⟨⟨?_, fun hfits => ?_⟩, fun p hp => ?_, assemble_of_not_fits hgap hapart⟩
  · rintro ⟨p, hp⟩
    by_contra hlarge
    have hrefused := assemble_of_not_fits hgap hapart hlarge
    cases hp.symm.trans hrefused
  · obtain ⟨p, hp, -⟩ := assemble_of_fits hgap hapart hfits
    exact ⟨p, hp⟩
  · by_cases hfits : n.Fits
    · obtain ⟨p', hp', hbytes⟩ := assemble_of_fits hgap hapart hfits
      obtain rfl := Except.ok.inj (hp.symm.trans hp')
      exact ⟨_, hbytes, toNat_ofInt32 n.value⟩
    · cases hp.symm.trans (assemble_of_not_fits hgap hapart hfits)

/-- A literal of more than 64 bits behind a comment, and the least number of all, with leading zeros
and right behind the keyword. -/
theorem literals_are_exact_of_long :
    let large : Numeral := ⟨false, .hexadecimal, "DeadBeef00000000001".toList, by decide,
      List.all_iff_forall_prop.mp (by decide)⟩
    let least : Numeral := ⟨true, .hexadecimal, "0080000000".toList, by decide,
      List.all_iff_forall_prop.mp (by decide)⟩
    large.value = 16 ^ 11 * 0xDeadBeef + 1 ∧
      assemble "push // é\n0xDeadBeef00000000001" =
        .error (.numberOutOfRange 11 "0xDeadBeef00000000001") ∧
      least.value = -2147483648 ∧
      ∃ p, assemble "push-0x0080000000" = .ok p ∧
        ∃ w : Word, p.bytes = 0x02 :: w.toList ∧ w.toNat = 2147483648 := by
  intro large least
  have hgap : Gap " // é\n".toList := .blank rfl (@Gap.comment " é".toList [] (by decide) .nil)
  have hlarge : ¬ (-2 ^ 31 ≤ large.value ∧ large.value ≤ 2 ^ 32 - 1) := by decide +kernel
  have hleast : least.value = -2147483648 := by decide +kernel
  obtain ⟨-, -, hrefused⟩ := literals_are_exact large hgap (.inl (by decide))
  obtain ⟨hfits, hbytes, -⟩ := literals_are_exact least .nil (.inr rfl)
  obtain ⟨p, hp⟩ := hfits.mpr (by rw [hleast]; decide)
  obtain ⟨w, hw, hvalue⟩ := hbytes p hp
  rw [hleast] at hvalue
  exact ⟨by decide +kernel, hrefused hlarge, hleast, p, hp, w, hw, by omega⟩

end Ledboard.Assembly
