/-
# Lexemes

A lexeme is found at the start of a text, as long as it can be (`lexemeAt_eq_ok_iff`).  It is a
directive, a number or a word (`Lexes`), and where it stands makes no difference.

* **Its characters** (`Lexes.exists_tail`).  It is made of characters of the text, all of them ASCII,
  so that it has a byte for each.
* **Its end** (`Lexes.of_append`, `Lexes.append`).  It stays the same when the text is cut off behind
  it, and when a text is put behind that does not go on with a word.

Words and the digits of a number are longest runs of characters of a kind, so the end of a lexeme
comes down to the end of a longest run (`takeWhile_of_append`, `takeWhile_of_head`).
-/
import Ledboard.Assembly.Token
import Ledboard.Proofs.Outcome
import Ledboard.Text.Utf8
import Mathlib.Data.List.TakeWhile

namespace Ledboard

/-- A longest run is the same in a text that is cut off behind it. -/
theorem takeWhile_of_append {α : Type} {p : α → Bool} {front back : List α}
    (h : ((front ++ back).takeWhile p).length ≤ front.length) :
    (front ++ back).takeWhile p = front.takeWhile p := by
  rw [List.takeWhile_append] at h ⊢
  split at h
  · rename_i hall
    rw [List.length_append] at h
    have hnone : back.takeWhile p = [] := List.eq_nil_of_length_eq_zero (by omega)
    have hfront : front.takeWhile p = front := (List.takeWhile_prefix p).eq_of_length hall
    rw [if_pos hall, hnone, hfront, List.append_nil]
  · rename_i hsome
    rw [if_neg hsome]

/-- A longest run is the same when a text is put behind that does not go on with it. -/
theorem takeWhile_of_head {α : Type} {p : α → Bool} {front back : List α}
    (h : ∀ x ∈ back.head?, p x = false) : (front ++ back).takeWhile p = front.takeWhile p := by
  have hnone : back.takeWhile p = [] := by
    cases back with
    | nil => rfl
    | cons x back => exact List.takeWhile_cons_of_neg (by simp [h x rfl])
  rw [List.takeWhile_append]
  split
  · rename_i hall
    rw [hnone, List.append_nil, (List.takeWhile_prefix p).eq_of_length hall]
  · rfl

namespace Assembly

/-! ## 1. Characters -/

/-- A character of one byte. -/
def IsAscii (c : Char) : Prop := c.toNat < 128

instance (c : Char) : Decidable (IsAscii c) := inferInstanceAs (Decidable (c.toNat < 128))

theorem utf8Size_of_isAscii {c : Char} (h : IsAscii c) : c.utf8Size = 1 := by
  rw [Char.utf8Size_eq_one_iff, UInt32.le_iff_toNat_le]
  exact Nat.le_of_lt_succ h

theorem utf8Length_append (front back : List Char) :
    utf8Length (front ++ back) = utf8Length front + utf8Length back := by
  induction front with
  | nil => simp [utf8Length]
  | cons c front ih =>
    simp only [utf8Length, List.cons_append, List.foldr_cons] at ih ⊢
    omega

/-- A text of ASCII characters has a byte for each. -/
theorem utf8Length_of_isAscii {text : List Char} (h : ∀ c ∈ text, IsAscii c) :
    utf8Length text = text.length := by
  induction text with
  | nil => rfl
  | cons c text ih =>
    obtain ⟨hc, htext⟩ := List.forall_mem_cons.mp h
    rw [utf8Length, List.foldr_cons, utf8Size_of_isAscii hc, ← utf8Length, ih htext,
      List.length_cons, Nat.add_comm]

/-- A text has as many bytes as its characters take. -/
theorem utf8Length_toList (source : String) : utf8Length source.toList = source.utf8ByteSize := by
  have hbytes : ∀ cs : List Char, (cs.flatMap String.utf8EncodeChar).length = utf8Length cs := by
    intro cs
    induction cs with
    | nil => rfl
    | cons c cs ih =>
      rw [List.flatMap_cons, List.length_append, ih, String.length_utf8EncodeChar]
      rfl
  rw [← Text.length_bytesOf, ← hbytes, ← Text.bytesOf_ofList, String.ofList_toList]

theorem toNat_of_isDigit {c : Char} (h : c.isDigit = true) : 48 ≤ c.toNat ∧ c.toNat ≤ 57 := by
  obtain ⟨hlow, hhigh⟩ := (Bool.and_eq_true _ _).mp h
  exact ⟨UInt32.le_iff_toNat_le.mp (of_decide_eq_true hlow),
    UInt32.le_iff_toNat_le.mp (of_decide_eq_true hhigh)⟩

theorem toNat_of_isAlpha {c : Char} (h : c.isAlpha = true) :
    65 ≤ c.toNat ∧ c.toNat ≤ 90 ∨ 97 ≤ c.toNat ∧ c.toNat ≤ 122 := by
  rcases (Bool.or_eq_true _ _).mp h with hupper | hlower
  · have hboth : 'A'.val ≤ c.val ∧ c.val ≤ 'Z'.val := of_decide_eq_true hupper
    exact Or.inl ⟨UInt32.le_iff_toNat_le.mp hboth.1, UInt32.le_iff_toNat_le.mp hboth.2⟩
  · obtain ⟨hlow, hhigh⟩ := (Bool.and_eq_true _ _).mp hlower
    exact Or.inr ⟨UInt32.le_iff_toNat_le.mp (of_decide_eq_true hlow),
      UInt32.le_iff_toNat_le.mp (of_decide_eq_true hhigh)⟩

theorem isAscii_of_isDigit {c : Char} (h : c.isDigit = true) : IsAscii c :=
  Nat.lt_of_le_of_lt (toNat_of_isDigit h).2 (by decide)

theorem isAscii_of_isAlpha {c : Char} (h : c.isAlpha = true) : IsAscii c := by
  rcases toNat_of_isAlpha h with hupper | hlower
  · exact Nat.lt_of_le_of_lt hupper.2 (by decide)
  · exact Nat.lt_of_le_of_lt hlower.2 (by decide)

theorem isAscii_of_isWordPart {c : Char} (h : isWordPart c = true) : IsAscii c := by
  simp only [isWordPart, Char.isAlphanum, Bool.or_eq_true, beq_iff_eq] at h
  rcases h with (h | h) | rfl
  · exact isAscii_of_isAlpha h
  · exact isAscii_of_isDigit h
  · decide

theorem isWordPart_of_isAlpha {c : Char} (h : c.isAlpha = true) : isWordPart c = true := by
  simp only [isWordPart, Char.isAlphanum, h, Bool.true_or]

theorem isWordPart_of_isDigit {c : Char} (h : c.isDigit = true) : isWordPart c = true := by
  simp only [isWordPart, Char.isAlphanum, h, Bool.or_true, Bool.true_or]

/-- The digits of a base up to 16 can be in words. -/
theorem isWordPart_of_isDigitOf {base : Nat} (hbase : base ≤ 16) {c : Char}
    (h : Text.isDigitOf base c = true) : isWordPart c = true := by
  unfold Text.isDigitOf Text.digitValue? at h
  simp only at h
  -- A character that is no digit at all counts as 16, which is below no base.
  by_cases hdigit : '0' ≤ c ∧ c ≤ '9'
  · exact isWordPart_of_isDigit ((Bool.and_eq_true _ _).mpr
      ⟨decide_eq_true hdigit.1, decide_eq_true hdigit.2⟩)
  by_cases hlower : 'a' ≤ c ∧ c ≤ 'f'
  · have hz : c ≤ 'z' := Char.le_trans hlower.2 (by decide)
    exact isWordPart_of_isAlpha ((Bool.or_eq_true _ _).mpr (Or.inr
      ((Bool.and_eq_true _ _).mpr ⟨decide_eq_true hlower.1, decide_eq_true hz⟩)))
  by_cases hupper : 'A' ≤ c ∧ c ≤ 'F'
  · have hz : c ≤ 'Z' := Char.le_trans hupper.2 (by decide)
    exact isWordPart_of_isAlpha ((Bool.or_eq_true _ _).mpr (Or.inl
      (decide_eq_true ⟨hupper.1, hz⟩)))
  rw [if_neg hdigit, if_neg hlower, if_neg hupper, if_neg (by omega)] at h
  exact absurd h (by decide)

/-! ## 2. Numbers -/

namespace Literal

/-- The longest literal at the start of a text behind its sign. -/
def unsigned (sign body : List Char) : Literal :=
  match body with
  | '0' :: 'x' :: rest => ⟨sign, ['0', 'x'], 16, rest.takeWhile (Text.isDigitOf 16)⟩
  | '0' :: 'b' :: rest => ⟨sign, ['0', 'b'], 2, rest.takeWhile (Text.isDigitOf 2)⟩
  | _ => ⟨sign, [], 10, body.takeWhile (Text.isDigitOf 10)⟩

theorem ofChars_minus (rest : List Char) : ofChars ('-' :: rest) = unsigned ['-'] rest := rfl

theorem ofChars_of_ne_minus {c : Char} (hc : c ≠ '-') (rest : List Char) :
    ofChars (c :: rest) = unsigned [] (c :: rest) := by
  unfold ofChars
  split
  rename_i sign body heq
  split at heq
  · rename_i hsame
    exact absurd (List.cons.inj hsame).1 hc
  · obtain ⟨rfl, rfl⟩ := Prod.mk.inj heq
    rfl

/-- A body without a radix mark. -/
theorem unsigned_of_no_mark {body : List Char}
    (h : ¬ ['0', 'x'] <+: body ∧ ¬ ['0', 'b'] <+: body) (sign : List Char) :
    unsigned sign body = ⟨sign, [], 10, body.takeWhile (Text.isDigitOf 10)⟩ := by
  unfold unsigned
  split
  · exact absurd (List.prefix_append _ _) h.1
  · exact absurd (List.prefix_append _ _) h.2
  · rfl

/-- A body with a radix mark that is cut off behind its literal has the same literal. -/
theorem unsigned_of_mark {mark : Char} {base : Nat}
    (hmark : ∀ sign rest, unsigned sign ('0' :: mark :: rest) =
      ⟨sign, ['0', mark], base, rest.takeWhile (Text.isDigitOf base)⟩)
    {sign front back : List Char} (hbody : ['0', mark] <+: front ++ back)
    (h : (unsigned sign (front ++ back)).text.length ≤ sign.length + front.length) :
    unsigned sign (front ++ back) = unsigned sign front := by
  -- The literal holds the mark, so the mark is not cut.
  have hlength : 2 ≤ front.length := by
    obtain ⟨rest, hrest⟩ := hbody
    rw [← hrest] at h
    simp only [List.cons_append, List.nil_append, hmark, text, List.length_append,
      List.length_cons, List.length_nil] at h
    omega
  obtain ⟨rest, rfl⟩ : ['0', mark] <+: front :=
    List.prefix_of_prefix_length_le hbody (List.prefix_append front back) hlength
  simp only [List.cons_append, List.nil_append, hmark, text, List.length_append,
    List.length_cons, List.length_nil] at h ⊢
  rw [takeWhile_of_append (by omega)]

/-- A body that is cut off behind its literal has the same literal. -/
theorem unsigned_of_append {sign front back : List Char}
    (h : (unsigned sign (front ++ back)).text.length ≤ sign.length + front.length) :
    unsigned sign (front ++ back) = unsigned sign front := by
  by_cases hx : ['0', 'x'] <+: front ++ back
  · exact unsigned_of_mark (fun _ _ => rfl) hx h
  by_cases hb : ['0', 'b'] <+: front ++ back
  · exact unsigned_of_mark (fun _ _ => rfl) hb h
  · have hfront : ¬ ['0', 'x'] <+: front ∧ ¬ ['0', 'b'] <+: front :=
      ⟨fun hp => hx (hp.trans (List.prefix_append _ _)),
        fun hp => hb (hp.trans (List.prefix_append _ _))⟩
    rw [unsigned_of_no_mark ⟨hx, hb⟩] at h ⊢
    simp only [text, List.append_nil, List.length_append] at h
    rw [unsigned_of_no_mark hfront, takeWhile_of_append (by omega)]

/-- **A text that is cut off behind its literal has the same literal.** -/
theorem ofChars_of_append {c : Char} {front back : List Char}
    (h : (ofChars (c :: (front ++ back))).text.length ≤ front.length + 1) :
    ofChars (c :: (front ++ back)) = ofChars (c :: front) := by
  by_cases hc : c = '-'
  · subst hc
    rw [ofChars_minus] at h ⊢
    rw [ofChars_minus, unsigned_of_append (by rw [List.length_singleton]; omega)]
  · rw [ofChars_of_ne_minus hc] at h ⊢
    rw [ofChars_of_ne_minus hc]
    rw [← List.cons_append] at h ⊢
    exact unsigned_of_append (by rwa [List.length_nil, Nat.zero_add, List.length_cons])

/-- A literal is a sign, a radix mark and the longest run of digits behind them. -/
theorem exists_of_unsigned (sign body : List Char) :
    ∃ mark rest base, body = mark ++ rest ∧ base ≤ 16 ∧ (∀ c ∈ mark, isWordPart c = true) ∧
      unsigned sign body = ⟨sign, mark, base, rest.takeWhile (Text.isDigitOf base)⟩ := by
  unfold unsigned
  split
  · rename_i rest
    exact ⟨['0', 'x'], rest, 16, rfl, by decide, List.all_eq_true.mp (by decide), rfl⟩
  · rename_i rest
    exact ⟨['0', 'b'], rest, 2, rfl, by decide, List.all_eq_true.mp (by decide), rfl⟩
  · exact ⟨[], body, 10, rfl, by decide, List.forall_mem_nil _, rfl⟩

/-- Behind its sign a literal is made of characters that can be in words. -/
theorem text_unsigned (sign body : List Char) :
    ∃ word, (unsigned sign body).text = sign ++ word ∧ word <+: body ∧
      ∀ c ∈ word, isWordPart c = true := by
  obtain ⟨mark, rest, base, rfl, hbase, hmark, heq⟩ := exists_of_unsigned sign body
  refine ⟨mark ++ rest.takeWhile (Text.isDigitOf base), ?_,
    (List.prefix_append_right_inj _).mpr (List.takeWhile_prefix _), ?_⟩
  · rw [heq, text, List.append_assoc]
  · intro c hc
    rcases List.mem_append.mp hc with hc | hdigit
    · exact hmark c hc
    · exact isWordPart_of_isDigitOf hbase (List.mem_takeWhile_imp hdigit)

/-- **A literal stands at the start of its text**, and goes on like a word. -/
theorem text_ofChars (c : Char) (rest : List Char) :
    (ofChars (c :: rest)).text <+: c :: rest ∧
      ∀ d ∈ (ofChars (c :: rest)).text.tail, isWordPart d = true := by
  by_cases hc : c = '-'
  · subst hc
    obtain ⟨word, htext, hstarts, hword⟩ := text_unsigned ['-'] rest
    rw [ofChars_minus, htext]
    exact ⟨(List.prefix_append_right_inj ['-']).mpr hstarts, hword⟩
  · obtain ⟨word, htext, hstarts, hword⟩ := text_unsigned [] (c :: rest)
    rw [ofChars_of_ne_minus hc, htext]
    exact ⟨hstarts, fun d hd => hword d (List.mem_of_mem_tail hd)⟩

/-- **A text has the same literal when one is put behind that does not go on with a word.** -/
theorem ofChars_of_head {c : Char} {front back : List Char}
    (h : ∀ d ∈ back.head?, isWordPart d = false) :
    ofChars (c :: (front ++ back)) = ofChars (c :: front) := by
  -- A longer literal would hold the first character behind.
  refine ofChars_of_append (Nat.le_of_not_lt fun hlength => ?_)
  obtain ⟨hstarts, hword⟩ := text_ofChars c (front ++ back)
  obtain ⟨more, hmore⟩ := List.prefix_of_prefix_length_le (List.prefix_append (c :: front) back)
    hstarts (Nat.le_of_lt hlength)
  rw [← hmore] at hlength hstarts hword
  cases more with
  | nil => simp at hlength
  | cons d more =>
    have hhead : d ∈ back.head? := by
      obtain ⟨rest, rfl⟩ := (List.prefix_append_right_inj (c :: front)).mp hstarts
      rfl
    have hpart : isWordPart d = true := hword d (by simp)
    rw [h d hhead] at hpart
    exact absurd hpart Bool.false_ne_true

end Literal

/-! ## 3. Lexemes -/

variable {position more : Nat} {c : Char} {front back rest word : List Char} {literal : Literal}
  {l : Lexeme}

/-- What a literal is, if it has digits and 32 bits hold it. -/
inductive IsNumber (literal : Literal) : Lexeme → Prop where
  | mk {value : Int} (hdigits : literal.digits ≠ []) (hvalue : literal.value? = some value) :
      IsNumber literal (.number (Int32.ofInt value))

/-- What a word is, unless it is written like a register that does not exist. -/
inductive IsWord (word : List Char) : Lexeme → Prop where
  | keyword {k : Keyword} (h : Keyword.ofWord? (String.ofList word) = some k) :
      IsWord word (.keyword k)
  | name (hword : Keyword.ofWord? (String.ofList word) = none) (h : registerDigits? word = none) :
      IsWord word (.name (String.ofList word))
  | register {digits : List Char} {number : Nat}
      (hword : Keyword.ofWord? (String.ofList word) = none) (h : registerDigits? word = some digits)
      (hnumber : Text.valueUpTo? 10 (Instruction.registerCount - 1) digits = some number) :
      IsWord word (.register (UInt8.ofNat number))

/-- **What a number is does not depend on where it stands.** -/
theorem numberLexeme_eq_ok_iff : numberLexeme position literal = .ok l ↔ IsNumber literal l := by
  constructor
  · intro h
    unfold numberLexeme at h
    split at h
    · exact absurd h (by simp)
    · rename_i hdigits
      split at h
      · rename_i value hvalue
        obtain rfl := Except.ok.inj h
        exact .mk (by simpa using hdigits) hvalue
      · exact absurd h (by simp)
  · rintro ⟨hdigits, hvalue⟩
    rw [numberLexeme, if_neg (by simpa using hdigits), hvalue]

/-- **What a word is does not depend on where it stands.** -/
theorem wordLexeme_eq_ok_iff : wordLexeme position word = .ok l ↔ IsWord word l := by
  constructor
  · intro h
    unfold wordLexeme at h
    simp only at h
    split at h
    · rename_i hword
      obtain rfl := Except.ok.inj h
      exact .keyword hword
    · rename_i hword
      split at h
      · rename_i hdigits
        obtain rfl := Except.ok.inj h
        exact .name hword hdigits
      · rename_i hdigits
        split at h
        · rename_i hnumber
          obtain rfl := Except.ok.inj h
          exact .register hword hdigits hnumber
        · exact absurd h (by simp)
  · intro h
    unfold wordLexeme
    cases h with
    | keyword h => simp only [h]
    | name hword h => simp only [hword, h]
    | register hword h hnumber => simp only [hword, h, hnumber]

/-- What a lexeme is made of, by its first character. -/
inductive Lexes (c : Char) (rest : List Char) : Lexeme → Nat → Prop where
  /-- a directive -/
  | directive {word : List Char} {l : Lexeme} (hc : c = '#')
      (hword : rest.takeWhile isWordPart = word)
      (hl : word = "name".toList ∧ l = .nameDirective ∨ word = "here".toList ∧ l = .hereDirective) :
      Lexes c rest l word.length
  /-- a number -/
  | number {literal : Literal} {l : Lexeme} (hc : c.isDigit = true ∨ c = '-')
      (hliteral : Literal.ofChars (c :: rest) = literal) (hl : IsNumber literal l) :
      Lexes c rest l (literal.text.length - 1)
  /-- a word -/
  | word {word : List Char} {l : Lexeme} (hc : isWordStart c = true)
      (hword : rest.takeWhile isWordPart = word) (hl : IsWord (c :: word) l) :
      Lexes c rest l word.length

theorem lexes_of_lexemeAt (h : lexemeAt position c rest = .ok (l, more)) : Lexes c rest l more := by
  unfold lexemeAt at h
  simp only at h
  split at h
  · rename_i hc
    split at h
    · rename_i hword
      obtain ⟨rfl, rfl⟩ := Prod.mk.inj (Except.ok.inj h)
      exact .directive hc rfl (Or.inl ⟨hword, rfl⟩)
    · split at h
      · rename_i hword
        obtain ⟨rfl, rfl⟩ := Prod.mk.inj (Except.ok.inj h)
        exact .directive hc rfl (Or.inr ⟨hword, rfl⟩)
      · exact absurd h (by simp)
  · split at h
    · rename_i hc
      obtain ⟨l', hl', heq⟩ := map_eq_ok_iff.mp h
      obtain ⟨rfl, rfl⟩ := Prod.mk.inj heq
      refine .number ?_ rfl (numberLexeme_eq_ok_iff.mp hl')
      rwa [Bool.or_eq_true, beq_iff_eq] at hc
    · split at h
      · rename_i hc
        obtain ⟨l', hl', heq⟩ := map_eq_ok_iff.mp h
        obtain ⟨rfl, rfl⟩ := Prod.mk.inj heq
        exact .word hc rfl (wordLexeme_eq_ok_iff.mp hl')
      · exact absurd h (by simp)

/-- A word starts neither like a directive nor like a number. -/
theorem not_isDigit_of_isWordStart (h : isWordStart c = true) :
    c ≠ '#' ∧ c.isDigit = false ∧ c ≠ '-' := by
  refine ⟨?_, ?_, ?_⟩
  · rintro rfl
    exact absurd h (by decide)
  · rw [← Bool.not_eq_true]
    intro hdigit
    have hbounds := toNat_of_isDigit hdigit
    simp only [isWordStart, Bool.or_eq_true, beq_iff_eq] at h
    rcases h with halpha | rfl
    · have := toNat_of_isAlpha halpha
      omega
    · exact absurd hdigit (by decide)
  · rintro rfl
    exact absurd h (by decide)

theorem lexemeAt_of_lexes (h : Lexes c rest l more) (position : Nat) :
    lexemeAt position c rest = .ok (l, more) := by
  unfold lexemeAt
  simp only
  cases h with
  | directive hc hword hl =>
    rw [if_pos hc, hword]
    rcases hl with ⟨rfl, rfl⟩ | ⟨rfl, rfl⟩
    · rw [if_pos rfl]
    · rw [if_neg (by decide), if_pos rfl]
  | number hc hliteral hl =>
    have hne : c ≠ '#' := by
      rintro rfl
      exact absurd hc (by decide)
    have hstart : (c.isDigit || c == '-') = true := by rwa [Bool.or_eq_true, beq_iff_eq]
    rw [if_neg hne, if_pos hstart, hliteral, numberLexeme_eq_ok_iff.mpr hl]
    rfl
  | word hc hword hl =>
    obtain ⟨hne, hdigit, hminus⟩ := not_isDigit_of_isWordStart hc
    have hstart : (c.isDigit || c == '-') = false := by
      rw [hdigit, beq_eq_false_iff_ne.mpr hminus]
      rfl
    rw [if_neg hne, hstart, if_neg Bool.false_ne_true, if_pos hc, hword,
      wordLexeme_eq_ok_iff.mpr hl]
    rfl

/-- **A lexeme is a directive, a number or a word**, and where it stands makes no difference. -/
theorem lexemeAt_eq_ok_iff : lexemeAt position c rest = .ok (l, more) ↔ Lexes c rest l more :=
  ⟨lexes_of_lexemeAt, fun h => lexemeAt_of_lexes h position⟩

/-- A number has digits. -/
theorem IsNumber.length_text_pos (h : IsNumber literal l) : 0 < literal.text.length := by
  obtain ⟨hdigits, -⟩ := h
  have hpos := List.length_pos_iff.mpr hdigits
  simp only [Literal.text, List.length_append]
  omega

/-- **A text that is cut off behind its lexeme has the same lexeme.** -/
theorem Lexes.of_append (h : Lexes c (front ++ back) l more) (hmore : more ≤ front.length) :
    Lexes c front l more := by
  cases h with
  | directive hc hword hl =>
    subst hword
    exact .directive hc (takeWhile_of_append hmore).symm hl
  | number hc hliteral hl =>
    subst hliteral
    exact .number hc (Literal.ofChars_of_append (by omega)).symm hl
  | word hc hword hl =>
    subst hword
    exact .word hc (takeWhile_of_append hmore).symm hl

/-- **A text has the same lexeme when one is put behind that does not go on with a word.** -/
theorem Lexes.append (h : Lexes c front l more) (hback : ∀ d ∈ back.head?, isWordPart d = false) :
    Lexes c (front ++ back) l more := by
  cases h with
  | directive hc hword hl => exact .directive hc ((takeWhile_of_head hback).trans hword) hl
  | number hc hliteral hl => exact .number hc ((Literal.ofChars_of_head hback).trans hliteral) hl
  | word hc hword hl => exact .word hc ((takeWhile_of_head hback).trans hword) hl

theorem isAscii_of_lexes (h : Lexes c rest l more) : IsAscii c := by
  cases h with
  | directive hc =>
    subst hc
    decide
  | number hc =>
    rcases hc with hc | rfl
    · exact isAscii_of_isDigit hc
    · decide
  | word hc =>
    simp only [isWordStart, Bool.or_eq_true, beq_iff_eq] at hc
    rcases hc with hc | rfl
    · exact isAscii_of_isAlpha hc
    · decide

/-- A character and the longest run of word characters behind it are ASCII. -/
theorem exists_tail_of_word (hc : IsAscii c) (rest : List Char) :
    ∃ tail back, rest = tail ++ back ∧ tail.length = (rest.takeWhile isWordPart).length ∧
      ∀ d ∈ c :: tail, IsAscii d := by
  refine ⟨rest.takeWhile isWordPart, rest.dropWhile isWordPart,
    List.takeWhile_append_dropWhile.symm, rfl, List.forall_mem_cons.mpr ⟨hc, ?_⟩⟩
  intro d hd
  exact isAscii_of_isWordPart (List.mem_takeWhile_imp hd)

/-- **A lexeme is made of ASCII characters of the text.** -/
theorem Lexes.exists_tail (h : Lexes c rest l more) :
    ∃ tail back, rest = tail ++ back ∧ tail.length = more ∧ ∀ d ∈ c :: tail, IsAscii d := by
  have hc := isAscii_of_lexes h
  cases h with
  | directive _ hword =>
    subst hword
    exact exists_tail_of_word hc rest
  | number _ hliteral hl =>
    subst hliteral
    obtain ⟨⟨back, hback⟩, hword⟩ := Literal.text_ofChars c rest
    have hpos := hl.length_text_pos
    cases htext : (Literal.ofChars (c :: rest)).text with
    | nil => exact absurd hpos (by simp [htext])
    | cons d tail =>
      rw [htext] at hback hword
      obtain ⟨rfl, rfl⟩ := List.cons.inj hback
      exact ⟨tail, back, rfl, rfl,
        List.forall_mem_cons.mpr ⟨hc, fun e he => isAscii_of_isWordPart (hword e he)⟩⟩
  | word _ hword =>
    subst hword
    exact exists_tail_of_word hc rest

/-- A directive, a number and a word start neither like white space nor like a comment. -/
theorem not_filler_of_start (h : c = '#' ∨ (c.isDigit = true ∨ c = '-') ∨ isWordStart c = true) :
    Text.isAsciiBlank c = false ∧ c ≠ '/' := by
  constructor
  · rw [← Bool.not_eq_true]
    intro hblank
    simp only [Text.isAsciiBlank, Bool.or_eq_true, beq_iff_eq] at hblank
    rcases hblank with (((rfl | rfl) | rfl) | rfl) | rfl <;> exact absurd h (by decide)
  · rintro rfl
    exact absurd h (by decide)

theorem Lexes.start (h : Lexes c rest l more) : Text.isAsciiBlank c = false ∧ c ≠ '/' := by
  apply not_filler_of_start
  cases h with
  | directive hc => exact Or.inl hc
  | number hc => exact Or.inr (Or.inl hc)
  | word hc => exact Or.inr (Or.inr hc)

/-- Keywords and names are words. -/
theorem Lexes.isWord {tail : List Char} (h : Lexes c (tail ++ back) l more)
    (hmore : tail.length = more) (hl : (∃ k, l = .keyword k) ∨ ∃ text, l = .name text) :
    IsWord (c :: tail) l := by
  cases h with
  | directive _ _ hl' => rcases hl' with ⟨-, rfl⟩ | ⟨-, rfl⟩ <;> exact absurd hl (by simp)
  | number _ _ hl' =>
    cases hl'
    exact absurd hl (by simp)
  | @word word _ _ hword hl' =>
    subst hword
    have htail : (tail ++ back).takeWhile isWordPart = tail :=
      List.append_inj_left List.takeWhile_append_dropWhile hmore.symm
    rwa [htail] at hl'

/-- **The text of a keyword is its word.** -/
theorem Lexes.keyword_text {tail : List Char} {k : Keyword}
    (h : Lexes c (tail ++ back) (.keyword k) more) (hmore : tail.length = more) :
    k.word.toList = c :: tail := by
  cases h.isWord hmore (.inl ⟨k, rfl⟩) with
  | keyword hfound =>
    have hsame := List.find?_some hfound
    have hword : k.word = String.ofList (c :: tail) := eq_of_beq hsame
    rw [hword, String.toList_ofList]

/-- **The text of a name is the name.** -/
theorem Lexes.name_text {tail : List Char} {name : String}
    (h : Lexes c (tail ++ back) (.name name) more) (hmore : tail.length = more) :
    name.toList = c :: tail := by
  cases h.isWord hmore (.inr ⟨name, rfl⟩) with
  | name => rw [String.toList_ofList]

end Assembly

end Ledboard
