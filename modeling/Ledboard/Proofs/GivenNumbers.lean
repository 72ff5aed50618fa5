/-
# Numbers that are given are read exactly

The size of RAM and the two base addresses are given as text.  White space around a number does
not count, a mark in front of it says that it is hexadecimal, and behind the mark underscores do
not count either.  What is left is a `+`, if there is one, and digits.  A text is read as a number
exactly if it is a spelling of that number in this sense and 32 bits hold it
(`numbers_are_read_exactly`).

* **Digits** (`Text.readMagnitude_eq_ok_iff`).  A run of digits is read exactly if all of it are
  digits, and comes to the number that they stand for.
* **Signs and marks** (`Text.readUnsigned_eq_ok_iff`, `Spelling.radixOf_eq`).  Neither a `+` nor
  the `x` of a mark is a digit of base 10, so there is one way only to take a text apart.
* **White space** (`Spelling.standsIn_of_blanks`).  No character of a number is white space, so
  trimming takes off what was put around it and no more.
* **Digits that are written** (`toDigits_spec`).  The digits of a number stand for it, in both
  bases, with or without zeros in front of them.
-/
import Ledboard.Proofs.Assembly.Literals
import Ledboard.Settings.Option

namespace Ledboard

open Assembly (Radix IsDigitIn digitValue allDigits)

variable {r : Radix} {c : Char} {n greatest : Nat} {overflow : Text.NumeralError}
  {digits cs : List Char}

/-! ## 1. Digits -/

namespace Text

/-- Only digits have a value. -/
theorem isDigitIn_of_digitValue? {v : Nat} (h : digitValue? r.base c = some v) :
    IsDigitIn r.base c := by
  have hbase : r.base ≤ 16 := by cases r <;> decide
  have hbelow : ∀ last : Char, last.toNat < 128 → c ≤ last → c.toNat < 128 :=
    fun last hlast hle => Nat.lt_of_le_of_lt (UInt32.le_iff_toNat_le.mp hle) hlast
  have hascii : c.toNat < 128 := by
    unfold digitValue? at h
    split at h
    · exact hbelow '9' (by decide) (by assumption : '0' ≤ c ∧ c ≤ '9').2
    split at h
    · exact hbelow 'f' (by decide) (by assumption : 'a' ≤ c ∧ c ≤ 'f').2
    split at h
    · exact hbelow 'F' (by decide) (by assumption : 'A' ≤ c ∧ c ≤ 'F').2
    · simp only [Nat.not_lt.mpr hbase, if_false, reduceCtorEq] at h
  have hall : ∀ i : Fin 128, (digitValue? r.base (Char.ofNat i)).isSome = true →
      IsDigitIn r.base (Char.ofNat i) := by
    cases r <;> decide +kernel
  have hc := hall ⟨c.toNat, hascii⟩
  rw [Char.ofNat_toNat] at hc
  exact hc (by rw [h]; rfl)

/-- What is read is digits, all of it. -/
theorem isDigitIn_of_readDigits {value : Nat}
    (h : readDigits r.base greatest overflow value digits = .ok n) :
    ∀ c ∈ digits, IsDigitIn r.base c := by
  induction digits generalizing value with
  | nil => simp
  | cons c cs ih =>
    rw [readDigits] at h
    split at h
    · cases h
    · rename_i v hv
      split at h
      · exact List.forall_mem_cons.mpr ⟨isDigitIn_of_digitValue? hv, ih h⟩
      · cases h

/-- Digits are read on top of a value, if they are digits and do not take it past the limit. -/
theorem readDigits_eq_ok_iff {value : Nat} (hvalue : value ≤ greatest) :
    readDigits r.base greatest overflow value digits = .ok n ↔
      (∀ c ∈ digits, IsDigitIn r.base c) ∧
        addDigits r.base digitValue value digits = n ∧ n ≤ greatest := by
  constructor
  · intro h
    have hdigits := isDigitIn_of_readDigits h
    rw [readDigits_eq r.base_pos
      (fun c hc => Assembly.digitValue?_of_isDigitIn (hdigits c hc)) hvalue] at h
    split at h
    · rename_i hle
      obtain rfl := Except.ok.inj h
      exact ⟨hdigits, rfl, hle⟩
    · cases h
  · rintro ⟨hdigits, rfl, hle⟩
    rw [readDigits_eq r.base_pos
      (fun c hc => Assembly.digitValue?_of_isDigitIn (hdigits c hc)) hvalue, if_pos hle]

/-- **A run of digits is read** if it is one, and if its value does not exceed the limit. -/
theorem readMagnitude_eq_ok_iff :
    readMagnitude r.base greatest overflow digits = .ok n ↔
      (digits ≠ [] ∧ ∀ c ∈ digits, IsDigitIn r.base c) ∧
        addDigits r.base digitValue 0 digits = n ∧ n ≤ greatest := by
  cases digits with
  | nil => simp [readMagnitude]
  | cons c cs =>
    have hread : readMagnitude r.base greatest overflow (c :: cs) =
        readDigits r.base greatest overflow 0 (c :: cs) := rfl
    rw [hread, readDigits_eq_ok_iff (Nat.zero_le _), and_iff_right (List.cons_ne_nil c cs)]

theorem not_isDigitIn_plus (r : Radix) : ¬ IsDigitIn r.base '+' := by
  cases r <;> decide

/-- A sign, or none. -/
def plusSign (plus : Bool) : List Char := if plus then ['+'] else []

/-- **An unsigned number is read** if it is digits behind a `+` or behind nothing. -/
theorem readUnsigned_eq_ok_iff :
    readUnsigned r.base greatest cs = .ok n ↔
      ∃ plus digits, cs = plusSign plus ++ digits ∧
        (digits ≠ [] ∧ ∀ c ∈ digits, IsDigitIn r.base c) ∧
        addDigits r.base digitValue 0 digits = n ∧ n ≤ greatest := by
  unfold readUnsigned
  split
  case h_1 =>
    refine ⟨nofun, ?_⟩
    rintro ⟨plus, digits, htext, ⟨hsome, -⟩, -⟩
    exact absurd (List.append_eq_nil_iff.mp htext.symm).2 hsome
  case h_2 behind =>
    rw [readMagnitude_eq_ok_iff]
    constructor
    · exact fun h => ⟨true, behind, rfl, h⟩
    · rintro ⟨plus, digits, htext, hrest⟩
      cases plus with
      | true =>
        obtain rfl := (List.cons.inj htext).2
        exact hrest
      | false =>
        obtain rfl : '+' :: behind = digits := htext
        exact absurd (hrest.1.2 _ List.mem_cons_self) (not_isDigitIn_plus r)
  case h_3 hempty hplus =>
    rw [readMagnitude_eq_ok_iff]
    constructor
    · exact fun h => ⟨false, _, rfl, h⟩
    · rintro ⟨plus, digits, htext, hrest⟩
      cases plus with
      | true => exact absurd htext (hplus digits)
      | false =>
        obtain rfl : cs = digits := htext
        exact hrest

end Text

/-! ## 2. Marks -/

/-- What says how the digits behind it are to be read. -/
inductive BaseMark where
  | absent
  | small
  | capital
  deriving DecidableEq, Repr

namespace BaseMark

/-- The characters of a mark. -/
def chars : BaseMark → List Char
  | .absent => []
  | .small => ['0', 'x']
  | .capital => ['0', 'X']

/-- What a mark says. -/
def radix : BaseMark → Radix
  | .absent => .decimal
  | .small => .hexadecimal
  | .capital => .hexadecimal

end BaseMark

variable {mark : BaseMark} {body : List Char}

/-- Every text can be read as a mark and something behind it. -/
theorem exists_mark (cs : List Char) :
    ∃ mark body, cs = BaseMark.chars mark ++ body ∧ radixOf cs = (mark.radix.base, body) := by
  unfold radixOf
  split
  · exact ⟨.small, _, rfl, rfl⟩
  · exact ⟨.capital, _, rfl, rfl⟩
  · exact ⟨.absent, _, rfl, rfl⟩

/-- The mark is found, if what follows an absent one has no letter of a mark in it. -/
theorem radixOf_append (h : mark = .absent → 'x' ∉ body ∧ 'X' ∉ body) :
    radixOf (mark.chars ++ body) = (mark.radix.base, body) := by
  cases mark with
  | small => rfl
  | capital => rfl
  | absent =>
    obtain ⟨hsmall, hcapital⟩ := h rfl
    simp only [BaseMark.chars, List.nil_append]
    unfold radixOf
    split
    · simp at hsmall
    · simp at hcapital
    · rfl

/-! ## 3. Spellings -/

/-- A number as it may be given: a mark or none, a sign or none, and one digit at least. -/
structure Spelling where
  mark : BaseMark
  plus : Bool
  digits : List Char
  nonempty : digits ≠ []
  valid : ∀ c ∈ digits, IsDigitIn mark.radix.base c

namespace Spelling

variable (s : Spelling)

/-- The digits as a literal without a sign. -/
def numeral : Assembly.Numeral := ⟨false, s.mark.radix, s.digits, s.nonempty, s.valid⟩

/-- What a spelling stands for, however large. -/
def value : Nat := s.numeral.magnitude

/-- A text holds a spelling, with white space around it and underscores behind the mark. -/
def StandsIn (text : List Char) : Prop :=
  ∃ body, Text.Trimmed text (s.mark.chars ++ body) ∧
    body.filter (· != '_') = Text.plusSign s.plus ++ s.digits

variable {s}

/-- Behind the mark there are underscores, a sign and digits only. -/
theorem eq_of_mem_body (hkept : body.filter (· != '_') = Text.plusSign s.plus ++ s.digits)
    (hc : c ∈ body) : c = '_' ∨ c = '+' ∨ IsDigitIn s.mark.radix.base c := by
  refine Decidable.or_iff_not_imp_left.mpr fun hgap => ?_
  have hmem : c ∈ Text.plusSign s.plus ++ s.digits := by
    rw [← hkept]
    exact List.mem_filter.mpr ⟨hc, by simpa using hgap⟩
  rcases List.mem_append.mp hmem with hsign | hdigit
  · unfold Text.plusSign at hsign
    split at hsign
    · exact .inl (List.mem_singleton.mp hsign)
    · cases hsign
  · exact .inr (s.valid c hdigit)

/-- The mark of a spelling is the mark of every text that holds it. -/
theorem radixOf_eq (hkept : body.filter (· != '_') = Text.plusSign s.plus ++ s.digits) :
    radixOf (s.mark.chars ++ body) = (s.mark.radix.base, body) := by
  refine radixOf_append fun habsent => ?_
  have hletter : ∀ c, ¬ (c = '_' ∨ c = '+' ∨ IsDigitIn Radix.decimal.base c) → c ∉ body := by
    intro c hother hc
    have hkind := eq_of_mem_body hkept hc
    rw [habsent] at hkind
    exact hother hkind
  exact ⟨hletter 'x' (by decide), hletter 'X' (by decide)⟩

/-- Nothing of a spelling is white space. -/
theorem isBlank_of_mem (hkept : body.filter (· != '_') = Text.plusSign s.plus ++ s.digits) :
    ∀ c ∈ s.mark.chars ++ body, Text.isBlank c = false := by
  have hmark : ∀ m : BaseMark, ∀ c ∈ m.chars, Text.isBlank c = false := by
    intro m
    cases m <;> exact List.all_iff_forall_prop.mp (by decide)
  intro c hc
  rcases List.mem_append.mp hc with hc | hc
  · exact hmark s.mark c hc
  · rcases eq_of_mem_body hkept hc with rfl | rfl | hdigit
    · decide
    · decide
    · refine Assembly.forall_isDigitIn (p := fun c => Text.isBlank c = false) ?_ hdigit
      cases s.mark.radix <;> decide +kernel

/-- White space may be put around a spelling. -/
theorem standsIn_of_blanks {front back : List Char}
    (hblank : ∀ c ∈ front ++ back, Text.isBlank c = true)
    (hkept : body.filter (· != '_') = Text.plusSign s.plus ++ s.digits) :
    s.StandsIn (front ++ (s.mark.chars ++ body) ++ back) := by
  obtain ⟨hfront, hback⟩ := List.forall_mem_append.mp hblank
  refine ⟨body, ⟨⟨front, back, rfl, hfront, hback⟩, fun c hc => ?_, fun c hc => ?_⟩, hkept⟩
  · exact isBlank_of_mem hkept c (List.mem_of_mem_head? hc)
  · exact isBlank_of_mem hkept c (List.mem_of_getLast? hc)

end Spelling

/-- **A number is read exactly where it is spelled**, if the limit allows it. -/
theorem readNumber_eq_ok_iff :
    readNumber cs = .ok n ↔
      ∃ s : Spelling, s.StandsIn cs ∧ s.value = n ∧ n ≤ topAddress.toNat := by
  constructor
  · intro h
    obtain ⟨mark, body, htrim, hradix⟩ := exists_mark (Text.trim cs)
    simp only [readNumber, hradix] at h
    obtain ⟨plus, digits, hkept, ⟨hsome, hvalid⟩, hvalue, hle⟩ := Text.readUnsigned_eq_ok_iff.mp h
    let s : Spelling := ⟨mark, plus, digits, hsome, hvalid⟩
    have hstands : s.StandsIn cs := ⟨body, Text.trim_eq_iff.mp htrim, hkept⟩
    exact ⟨s, hstands, s.numeral.addDigits_eq.symm.trans hvalue, hle⟩
  · rintro ⟨s, ⟨body, htrim, hkept⟩, hvalue, hle⟩
    simp only [readNumber, Text.trim_eq_iff.mpr htrim, Spelling.radixOf_eq hkept]
    exact Text.readUnsigned_eq_ok_iff.mpr ⟨s.plus, s.digits, hkept, ⟨s.nonempty, s.valid⟩,
      s.numeral.addDigits_eq.trans hvalue, hle⟩

/-! ## 4. Writing -/

theorem lowerValue_digitChar {v : Nat} (hv : v < r.base) :
    allDigits.idxOf v.digitChar = v ∧ v.digitChar ∈ allDigits.take r.base := by
  have hall : ∀ i : Fin r.base, allDigits.idxOf i.val.digitChar = i ∧
      i.val.digitChar ∈ allDigits.take r.base := by
    cases r <;> decide
  exact hall ⟨v, hv⟩

/-- **What is written for a number stands for it**, digit by digit. -/
theorem toDigits_spec (r : Radix) (n : Nat) :
    Text.addDigits r.base allDigits.idxOf 0 (Nat.toDigits r.base n) = n ∧
      ∀ c ∈ Nat.toDigits r.base n, c ∈ allDigits.take r.base := by
  have hbase : 1 < r.base := by cases r <;> decide
  induction n using Nat.base_induction r.base hbase with
  | single n hlt =>
    obtain ⟨hvalue, hdigit⟩ := lowerValue_digitChar hlt
    rw [Nat.toDigits_of_lt_base hlt]
    refine ⟨?_, by simpa using hdigit⟩
    simp only [Text.addDigits, List.foldl_cons, List.foldl_nil, hvalue, Nat.zero_mul, Nat.zero_add]
  | digit n digit hdigit hpos ih =>
    obtain ⟨hvalue, hmem⟩ := lowerValue_digitChar hdigit
    rw [← Nat.toDigits_append_toDigits hbase hpos hdigit, Nat.toDigits_of_lt_base hdigit]
    refine ⟨?_, ?_⟩
    · have hfront : List.foldl (fun n c => n * r.base + allDigits.idxOf c) 0
          (Nat.toDigits r.base n) = n := ih.1
      simp only [Text.addDigits, List.foldl_append, List.foldl_cons, List.foldl_nil, hvalue, hfront,
        Nat.mul_comm]
    · intro c hc
      rcases List.mem_append.mp hc with hc | hc
      · exact ih.2 c hc
      · rw [List.mem_singleton.mp hc]
        exact hmem

/-- A number is written behind a mark: its digits in either case, with zeros in front of them and
underscores anywhere. -/
def Writes (mark : BaseMark) (body : List Char) (n : Nat) : Prop :=
  ∃ zeros, (body.filter (· != '_')).map Char.toLower =
    List.replicate zeros '0' ++ Nat.toDigits mark.radix.base n

/-- Zeros in front of a number change nothing. -/
theorem addDigits_zeros (r : Radix) (zeros : Nat) (digits : List Char) :
    Text.addDigits r.base allDigits.idxOf 0 (List.replicate zeros '0' ++ digits) =
      Text.addDigits r.base allDigits.idxOf 0 digits := by
  induction zeros with
  | zero => rfl
  | succ zeros ih =>
    have hzero : 0 * r.base + allDigits.idxOf '0' = 0 := by
      rw [Nat.zero_mul]
      decide
    rw [Text.addDigits] at ih
    rw [List.replicate_succ, List.cons_append, Text.addDigits, List.foldl_cons, hzero, ih]

/-- **What is written is a spelling** of the number. -/
theorem exists_spelling (h : Writes mark body n) :
    ∃ s : Spelling, s.mark = mark ∧ s.value = n ∧
      body.filter (· != '_') = Text.plusSign s.plus ++ s.digits := by
  obtain ⟨zeros, hdigits⟩ := h
  obtain ⟨hvalue, hlower⟩ := toDigits_spec mark.radix n
  have hsome : body.filter (· != '_') ≠ [] := by
    intro hnone
    rw [hnone, List.map_nil, eq_comm, List.append_eq_nil_iff] at hdigits
    exact Nat.toDigits_ne_nil hdigits.2
  have hvalid : ∀ c ∈ body.filter (· != '_'), IsDigitIn mark.radix.base c := by
    intro c hc
    have hmem : c.toLower ∈ List.replicate zeros '0' ++ Nat.toDigits mark.radix.base n := by
      rw [← hdigits]
      exact List.mem_map_of_mem hc
    rcases List.mem_append.mp hmem with hzero | hdigit
    · rw [IsDigitIn, List.eq_of_mem_replicate hzero]
      cases mark <;> decide
    · exact hlower _ hdigit
  refine ⟨⟨mark, false, _, hsome, hvalid⟩, rfl, ?_, rfl⟩
  have hread : Text.addDigits mark.radix.base digitValue 0 (body.filter (· != '_')) =
      Text.addDigits mark.radix.base allDigits.idxOf 0
        ((body.filter (· != '_')).map Char.toLower) := by
    rw [Text.addDigits, Text.addDigits, List.foldl_map]
    rfl
  rw [hdigits, addDigits_zeros, hvalue] at hread
  exact (Assembly.Numeral.addDigits_eq _).symm.trans hread

/-! ## 5. The whole -/

/-- The number of a setting that is given as an address or a size. -/
def Setting.number? : Setting → Option (Arguments → Nat)
  | .ramSize => some Arguments.ramSize
  | .videoBase => some (fun a => a.videoBase.toNat)
  | .noiseBase => some (fun a => a.noiseBase.toNat)
  | _ => none

/-- A setting is given the number that was read. -/
theorem Setting.number_of_assign {setting : Setting} {field : Arguments → Nat} {text : String}
    {a a' : Arguments} (hfield : setting.number? = some field)
    (h : setting.assign text a = .ok a') : numberValue text = .ok (field a') := by
  have hfits : ∀ {n : Nat}, numberValue text = .ok n → (UInt32.ofNat n).toNat = n := by
    intro n hn
    obtain ⟨-, -, -, hle⟩ := readNumber_eq_ok_iff.mp (mapError_eq_ok_iff.mp hn)
    exact UInt32.toNat_ofNat_of_lt' (Nat.lt_succ_of_le hle)
  cases setting <;> simp only [number?, reduceCtorEq, Option.some.injEq] at hfield
  case ramSize =>
    obtain ⟨n, hn, rfl⟩ := map_eq_ok_iff.mp h
    rw [← hfield, hn]
  case videoBase =>
    obtain ⟨n, hn, rfl⟩ := map_eq_ok_iff.mp h
    rw [← hfield, hn]
    exact congrArg _ (hfits hn).symm
  case noiseBase =>
    obtain ⟨n, hn, rfl⟩ := map_eq_ok_iff.mp h
    rw [← hfield, hn]
    exact congrArg _ (hfits hn).symm

/-- **Numbers that are given are read exactly.**

* A text is read as a number exactly if, without the white space at its ends, it is the mark of
  base 16 or nothing, and behind that, without underscores, a `+` or nothing and one or more digits
  of the base that stand for the number; and if the number, however large that could be, is at most
  2^32 - 1.
* So each number up to 2^32 - 1 is read back from its digits in base 10, or from those in base 16
  behind a mark, in either case of each letter, with zeros in front, underscores anywhere behind
  the mark and white space at both ends.
* A setting that takes such a number gets the number that was read, and no other. -/
theorem numbers_are_read_exactly :
    (∀ (text : String) (n : Nat), numberValue text = .ok n ↔
      ∃ s : Spelling, s.StandsIn text.toList ∧ s.value = n ∧ n ≤ 4294967295) ∧
    (∀ n ≤ 4294967295, ∀ (mark : BaseMark) (body : List Char), Writes mark body n →
      ∀ front back : List Char, (∀ c ∈ front ++ back, Text.isBlank c = true) →
        numberValue (String.ofList (front ++ (mark.chars ++ body) ++ back)) = .ok n) ∧
    ∀ (setting : Setting) (field : Arguments → Nat), setting.number? = some field →
      ∀ (text : String) (a a' : Arguments), setting.assign text a = .ok a' →
        numberValue text = .ok (field a') := by
  have hread : ∀ (text : String) (n : Nat), numberValue text = .ok n ↔
      ∃ s : Spelling, s.StandsIn text.toList ∧ s.value = n ∧ n ≤ 4294967295 := fun text n =>
    mapError_eq_ok_iff.trans readNumber_eq_ok_iff
  refine ⟨hread, ?_, fun setting field hfield text a a' => Setting.number_of_assign hfield⟩
  intro n hn mark body hwritten front back hblank
  obtain ⟨s, rfl, hvalue, hkept⟩ := exists_spelling hwritten
  refine (hread _ n).mpr ⟨s, ?_, hvalue, hn⟩
  rw [String.toList_ofList]
  exact Spelling.standsIn_of_blanks hblank hkept

/-- The greatest number in base 16, with zeros, underscores and letters of both cases, between white
space of two kinds, as it is and as the base of the display window; and a number that is one too
large. -/
theorem numbers_are_read_exactly_of_greatest :
    let body := "_00fF__FfFFff_".toList
    let text := "\t0X_00fF__FfFFff_\u3000"
    let a : Arguments := { videoBase := 0xffffffff }
    (Writes .capital body 4294967295 ∧ (∀ c ∈ ['\t'] ++ ['\u3000'], Text.isBlank c = true) ∧
      Setting.videoBase.assign text {} = .ok a) ∧
    numberValue text = .ok 4294967295 ∧ numberValue text = .ok a.videoBase.toNat ∧
    ∀ n, numberValue "4_294_967_296" ≠ .ok n := by
  intro body text a
  have hwritten : Writes .capital body 4294967295 := ⟨2, by decide +kernel⟩
  have hblank : ∀ c ∈ ['\t'] ++ ['\u3000'], Text.isBlank c = true :=
    List.all_iff_forall_prop.mp (by decide)
  have hassign : Setting.videoBase.assign text {} = .ok a :=
    toOption_eq_some_iff.mp (by decide +kernel)
  have htext : String.ofList (['\t'] ++ (BaseMark.capital.chars ++ body) ++ ['\u3000']) = text := by
    decide +kernel
  have hlarge : (numberValue "4_294_967_296").toOption = none := by decide +kernel
  obtain ⟨-, hread, hgiven⟩ := numbers_are_read_exactly
  have hgreatest := hread _ (Nat.le_refl _) _ _ hwritten _ _ hblank
  rw [htext] at hgreatest
  refine ⟨⟨hwritten, hblank, hassign⟩, hgreatest, hgiven _ _ rfl _ _ _ hassign, fun n h => ?_⟩
  rw [h] at hlarge
  cases hlarge

end Ledboard
