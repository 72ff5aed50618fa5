/-
# The texts of instructions are assembled back

Each instruction has a text, as listings show it.  Apart from jumps, whose text has a displacement
where source has a name, the text of an instruction is a statement that stands for the instruction.
Texts with white space between them are therefore a source, and it is assembled into just these
instructions (`assemble_joined`).

* **Lexemes** (`Lexeme.WrittenAs`).  Keywords, registers and numbers are each read as themselves
  where white space follows or the source ends.  A number must not be taken for one with a radix
  mark, nor a register for a name, and the least number of all must be within the limits.
* **Statements** (`Says`, `SpelledBy`).  So an operation with its operand is cut into the tokens of
  a statement, and the text of an instruction into those of a statement that needs no names.
* **Sources** (`exists_parsed`).  So are texts one behind another.  Statements that need no names
  cannot be faulty, and mean just their instructions (`link_of_plains`).
-/
import Ledboard.Proofs.Assembly.SourceMap

namespace Ledboard.Assembly

/-! ## 1. Lexemes -/

variable {l : Lexeme} {i : Instruction} {c : Char} {position n : Nat}
  {text tail back digits gap : List Char} {ts : List Token}

/-- White space follows, or nothing. -/
def Ends (back : List Char) : Prop := ∀ c ∈ back.head?, Text.isAsciiBlank c = true

/-- A text that is read as a lexeme wherever white space follows or the source ends. -/
def Lexeme.WrittenAs (l : Lexeme) (text : List Char) : Prop :=
  ∃ c tail, text = c :: tail ∧ ∀ back, Ends back → Lexes c (tail ++ back) l tail.length

/-- White space ends words. -/
theorem not_part_of_blank (h : Text.isAsciiBlank c = true) : isWordPart c = false := by
  simp only [Text.isAsciiBlank, Bool.or_eq_true, beq_iff_eq] at h
  rcases h with (((rfl | rfl) | rfl) | rfl) | rfl <;> decide

/-- **A lexeme that is a whole text is written as this text**, because white space ends it. -/
theorem writtenAs_of_lexes (h : Lexes c tail l tail.length) : l.WrittenAs (c :: tail) :=
  ⟨c, tail, rfl, fun _ hback => h.append fun d hd => not_part_of_blank (hback d hd)⟩

theorem writtenAs_word (hc : isWordStart c = true) (htail : ∀ d ∈ tail, isWordPart d = true)
    (hword : IsWord (c :: tail) l) : l.WrittenAs (c :: tail) :=
  writtenAs_of_lexes (.word hc (List.takeWhile_eq_self_iff.mpr htail) hword)

/-- **Keywords are read as themselves.** -/
theorem writtenAs_keyword (k : Keyword) : (Lexeme.keyword k).WrittenAs k.word.toList := by
  obtain ⟨c, tail, htext, hc, htail⟩ : ∃ c tail, k.word.toList = c :: tail ∧
      isWordStart c = true ∧ tail.all isWordPart = true := by
    cases k <;> exact ⟨_, _, rfl, by decide, by decide⟩
  have hfound : Keyword.ofWord? k.word = some k := by cases k <;> decide
  rw [htext]
  refine writtenAs_word hc (List.all_eq_true.mp htail) (.keyword ?_)
  rw [← htext, String.ofList_toList]
  exact hfound

/-- **The registers that exist are read as themselves.** -/
theorem writtenAs_register (h : n < Instruction.registerCount) :
    (Lexeme.register (UInt8.ofNat n)).WrittenAs ('i' :: Nat.toDigits 10 n) := by
  have hdigits := Text.isDigit_toDigits n
  -- No keyword starts like a register.
  have hword : Keyword.ofWord? (String.ofList ('i' :: Nat.toDigits 10 n)) = none := by
    rw [Keyword.ofWord?, List.find?_eq_none]
    intro k _ hk
    have hhead : k.word.toList.head? = some 'i' := by
      rw [eq_of_beq hk, String.toList_ofList, List.head?_cons]
    revert hhead
    cases k <;> decide
  -- Only register 0 is written with a leading zero.
  have hregister : registerDigits? ('i' :: Nat.toDigits 10 n) = some (Nat.toDigits 10 n) := by
    rcases Nat.eq_zero_or_pos n with rfl | hpos
    · decide
    · obtain ⟨d, ds, heq, hd⟩ := Text.exists_toDigits hpos
      rw [heq] at hdigits ⊢
      rw [registerDigits?, List.all_eq_true.mpr hdigits, bne_iff_ne.mpr hd, Bool.or_true,
        Bool.and_self, if_pos rfl]
  have hnumber := Text.valueUpTo?_toDigits (Nat.le_sub_one_of_lt h)
  exact writtenAs_word (by decide) (fun c hc => isWordPart_of_isDigit (hdigits c hc))
    (.register hword hregister hnumber)

/-- Decimal digits do not start with a radix mark. -/
theorem no_radixMark {mark : Char} (hmark : mark.isDigit = false)
    (hdigits : ∀ c ∈ digits, c.isDigit = true) : ¬ ['0', mark] <+: digits := by
  intro h
  have hdigit := hdigits mark (h.subset (by simp))
  exact absurd hdigit (by rw [hmark]; decide)

/-- Digits behind a sign are a decimal literal. -/
theorem unsigned_of_digits (hdigits : ∀ c ∈ digits, c.isDigit = true) (sign : List Char) :
    Literal.unsigned sign digits = ⟨sign, [], 10, digits⟩ := by
  have hpart : ∀ c ∈ digits, Text.isDigitOf 10 c = true := by
    intro c hc
    rw [Text.isDigitOf, Text.digitValue?_of_isDigit (hdigits c hc)]
    rfl
  rw [Literal.unsigned_of_no_mark ⟨no_radixMark (by decide) hdigits,
    no_radixMark (by decide) hdigits⟩, List.takeWhile_eq_self_iff.mpr hpart]

/-- A literal is read as its number. -/
theorem writtenAs_literal {literal : Literal} (hc : c.isDigit = true ∨ c = '-')
    (hliteral : Literal.ofChars (c :: tail) = literal) (htext : literal.text = c :: tail)
    (hnumber : IsNumber literal l) : l.WrittenAs (c :: tail) := by
  have hlength : literal.text.length - 1 = tail.length := by
    rw [htext]
    rfl
  exact writtenAs_of_lexes (hlength ▸ .number hc hliteral hnumber)

/-- What digits within the limit are behind a sign. -/
theorem isNumber_toDigits (sign : List Char)
    (h : n ≤ Literal.limit ⟨sign, [], 10, Nat.toDigits 10 n⟩) :
    IsNumber ⟨sign, [], 10, Nat.toDigits 10 n⟩
      (.number (Int32.ofInt (if sign.isEmpty then (n : Int) else -n))) := by
  refine .mk Nat.toDigits_ne_nil ?_
  rw [Literal.value?, Text.valueUpTo?_toDigits h]
  rfl

/-- **Decimal numbers are read as themselves**, as far as 32 bits without a sign hold them. -/
theorem writtenAs_decimal (h : n < 4294967296) :
    (Lexeme.number (Int32.ofInt n)).WrittenAs (Text.decimal n).toList := by
  have hlimit : n ≤ Literal.limit ⟨[], [], 10, Nat.toDigits 10 n⟩ := by
    simp only [Literal.limit, List.isEmpty_nil, if_true]
    omega
  have hnumber := isNumber_toDigits [] hlimit
  obtain ⟨c, tail, htext⟩ := List.exists_cons_of_ne_nil (Nat.toDigits_ne_nil (n := n) (b := 10))
  have hc : c.isDigit = true := Text.isDigit_toDigits n c (htext ▸ List.mem_cons_self)
  have hliteral : Literal.ofChars (c :: tail) = ⟨[], [], 10, Nat.toDigits 10 n⟩ := by
    rw [Literal.ofChars_of_ne_minus (by rintro rfl; exact absurd hc (by decide)), ← htext]
    exact unsigned_of_digits (Text.isDigit_toDigits n) []
  rw [Text.toList_decimal, htext]
  exact writtenAs_literal (Or.inl hc) hliteral htext hnumber

/-- **All numbers of 32 bits are read as themselves.** -/
theorem writtenAs_number (v : Int32) :
    (Lexeme.number v).WrittenAs (Text.decimal v.toInt).toList := by
  have hlow := v.le_toInt
  have hhigh := v.toInt_lt
  by_cases hsign : 0 ≤ v.toInt
  · obtain ⟨n, hn⟩ := Int.eq_ofNat_of_zero_le hsign
    have hdecimal := writtenAs_decimal (n := n) (by omega)
    rwa [← hn, Int32.ofInt_toInt] at hdecimal
  · obtain ⟨n, hn⟩ : ∃ n : Nat, v.toInt = -n := ⟨(-v.toInt).toNat, by omega⟩
    have hlimit : n ≤ Literal.limit ⟨['-'], [], 10, Nat.toDigits 10 n⟩ := by
      simp only [Literal.limit, List.isEmpty_cons, Bool.false_eq_true, if_false]
      omega
    have hnumber := isNumber_toDigits ['-'] hlimit
    rw [List.isEmpty_cons, if_neg Bool.false_ne_true, ← hn, Int32.ofInt_toInt] at hnumber
    rw [hn, Text.toList_decimal_neg (by omega)]
    refine writtenAs_literal (Or.inr rfl) ?_ rfl hnumber
    rw [Literal.ofChars_minus]
    exact unsigned_of_digits (Text.isDigit_toDigits n) ['-']

/-! ## 2. Statements -/

/-- A text that is cut into the tokens of a statement that asks for an action, wherever white space
follows or the source ends. -/
def Says (text : List Char) (action : Action) : Prop :=
  ∀ back, Ends back → ∀ position, ∃ parts s next, Spells parts s ∧ s.action = action ∧
    ∀ ts, Scanned next back ts → Scanned position (text ++ back) (parts ++ ts)

/-- A text that is cut into the tokens of a statement without names wherever white space follows or
the source ends. -/
def SpelledBy (text : List Char) (i : Instruction) : Prop :=
  ∀ back, Ends back → ∀ position, ∃ parts s next, Spells parts s ∧ Plain s.action i ∧
    ∀ ts, Scanned next back ts → Scanned position (text ++ back) (parts ++ ts)

theorem spelledBy_of_says {action : Action} (h : Says text action) (hplain : Plain action i) :
    SpelledBy text i := by
  intro back hback position
  obtain ⟨parts, s, next, hspells, rfl, hscanned⟩ := h back hback position
  exact ⟨parts, s, next, hspells, hplain, hscanned⟩

theorem scanned_of_writtenAs (h : l.WrittenAs text) (hback : Ends back) (position : Nat) :
    ∃ t next, t.lexeme = l ∧
      ∀ ts, Scanned next back ts → Scanned position (text ++ back) (t :: ts) := by
  obtain ⟨c, tail, rfl, hlexes⟩ := h
  refine ⟨⟨l, position, tail.length + 1⟩, position + (tail.length + 1), rfl, ?_⟩
  intro ts hts
  exact .token (hlexes back hback) hts

/-- White space between tokens is passed over. -/
theorem scanned_of_blanks (hgap : ∀ c ∈ gap, Text.isAsciiBlank c = true)
    (h : Scanned (position + gap.length) back ts) : Scanned position (gap ++ back) ts := by
  induction gap generalizing position with
  | nil => exact h
  | cons c gap ih =>
    obtain ⟨hc, hrest⟩ := List.forall_mem_cons.mp hgap
    refine .blank hc (ih hrest ?_)
    rwa [Nat.add_assoc, Nat.add_comm 1]

/-- An operation without an operand. -/
theorem says_plain {k : Keyword} (h : (Lexeme.keyword k).form? = some (.plain i)) :
    Says k.word.toList (.emit i) := by
  intro back hback position
  obtain ⟨head, next, hhead, hscanned⟩ :=
    scanned_of_writtenAs (writtenAs_keyword k) hback position
  exact ⟨[head], _, next, .plain (hhead ▸ h), rfl, hscanned⟩

/-- An operation or a directive, and its operand. -/
theorem says_unary {head : Lexeme} {word : List Char} {expected : Expected}
    {read : Lexeme → Option Action} {action : Action}
    (h : head.form? = some (.unary expected read)) (hread : read l = some action)
    (hhead : head.WrittenAs word) (hl : l.WrittenAs text) :
    Says (word ++ ' ' :: text) action := by
  intro back hback position
  have hblank : Ends (' ' :: (text ++ back)) := by
    rintro c ⟨⟩
    rfl
  obtain ⟨first, middle, rfl, hfirst⟩ := scanned_of_writtenAs hhead hblank position
  obtain ⟨operand, next, rfl, hsecond⟩ := scanned_of_writtenAs hl hback (middle + 1)
  refine ⟨[first, operand], _, next, .unary h hread, rfl, ?_⟩
  intro ts hts
  rw [List.append_assoc]
  exact hfirst _ (.blank rfl (hsecond ts hts))

/-- An instruction whose text is a statement: a canonical one that is neither a jump nor a byte that
is no opcode. -/
def Writable : Instruction → Prop
  | .jumpIfLess _ | .unknown _ => False
  | i => i.Canonical

instance (i : Instruction) : Decidable (Writable i) := by
  cases i <;> unfold Writable Instruction.Canonical <;> infer_instance

/-- **The text of an instruction is a statement that stands for it.** -/
theorem spelledBy_text (h : Writable i) : SpelledBy i.text.toList i := by
  have hregister : ∀ r : UInt8, r.toNat < Instruction.registerCount →
      (Lexeme.register r).WrittenAs ('i' :: (Text.decimal r.toNat).toList) := by
    intro r hr
    have hwritten := writtenAs_register hr
    rwa [UInt8.ofNat_toNat, ← Text.toList_decimal] at hwritten
  cases i with
  | halt => exact spelledBy_of_says (says_plain (k := .hlt) rfl) (.emit _)
  | add => exact spelledBy_of_says (says_plain (k := .add) rfl) (.emit _)
  | mul => exact spelledBy_of_says (says_plain (k := .mul) rfl) (.emit _)
  | read => exact spelledBy_of_says (says_plain (k := .read) rfl) (.emit _)
  | write => exact spelledBy_of_says (says_plain (k := .write) rfl) (.emit _)
  | pushReg r =>
    have hsays := says_unary rfl rfl (writtenAs_keyword .push) (hregister r h)
    rw [Instruction.text, String.toList_append]
    exact spelledBy_of_says hsays (.push r)
  | popReg r =>
    have hsays := says_unary rfl rfl (writtenAs_keyword .pop) (hregister r h)
    rw [Instruction.text, String.toList_append]
    exact spelledBy_of_says hsays (.pop r)
  | pushInt v =>
    have hsays := says_unary rfl rfl (writtenAs_keyword .push) (writtenAs_number v)
    rw [Instruction.text, String.toList_append]
    exact spelledBy_of_says hsays (.emit (.pushInt v))
  | jumpIfLess d => exact absurd h id
  | unknown op => exact absurd h id

/-! ## 3. Sources -/

variable {is : List Instruction} {ss before rest : List Statement} {rows : List Row}

/-- Texts of instructions, with white space between them and maybe behind the last one. -/
inductive Joined : List Instruction → List Char → Prop where
  | nil : Joined [] []
  | cons {i : Instruction} {is : List Instruction} {gap more : List Char}
      (hgap : ∀ c ∈ gap, Text.isAsciiBlank c = true) (hapart : is ≠ [] → gap ≠ [])
      (hmore : Joined is more) : Joined (i :: is) (i.text.toList ++ (gap ++ more))

/-- **Joined texts are statements that stand for the instructions.** -/
theorem exists_parsed {cs : List Char} (h : Joined is cs) (hwritable : ∀ i ∈ is, Writable i)
    (position : Nat) :
    ∃ ts ss, Scanned position cs ts ∧ Grouped ts ss ∧
      List.Forall₂ (fun s i => Plain s.action i) ss is := by
  induction h generalizing position with
  | nil => exact ⟨[], [], .nil position, .nil, .nil⟩
  | @cons i is gap more hgap hapart hmore ih =>
    obtain ⟨hi, his⟩ := List.forall_mem_cons.mp hwritable
    have hends : Ends (gap ++ more) := by
      cases gap with
      | nil =>
        obtain rfl : is = [] := Classical.byContradiction fun hne => hapart hne rfl
        cases hmore
        exact fun c hc => absurd hc (by simp)
      | cons c gap =>
        rintro d ⟨⟩
        exact hgap c List.mem_cons_self
    obtain ⟨parts, s, next, hspells, hplain, hscanned⟩ :=
      spelledBy_text hi (gap ++ more) hends position
    obtain ⟨ts, ss, hts, hgrouped, hplains⟩ := ih his (next + gap.length)
    exact ⟨parts ++ ts, s :: ss, hscanned ts (scanned_of_blanks hgap hts), .cons hspells hgrouped,
      .cons hplain hplains⟩

/-- A statement that needs no names stands for an instruction and has no fault. -/
theorem Plain.faultless {s : Statement} (h : Plain s.action i) :
    ¬ Means ss before s.action none ∧ (∀ e, ¬ NamingFault ss before s e) ∧
      ∀ e, ¬ JumpFault ss before s e := by
  refine ⟨?_, ?_, ?_⟩
  · intro hmeans
    generalize s.action = action at h hmeans
    cases h <;> cases hmeans
  · rintro e (⟨hs | hs, -⟩ | ⟨hs, -⟩) <;> rw [hs] at h <;> cases h
  · rintro e (⟨hs, -⟩ | ⟨hs, -⟩) <;> rw [hs] at h <;> cases h

/-- The rows of statements that need no names are their instructions. -/
theorem instructions_of_plains (hplains : List.Forall₂ (fun s i => Plain s.action i) rest is)
    (h : Compiled ss before rest rows) : rows.map Row.instruction = is := by
  induction h generalizing is with
  | nil =>
    cases hplains
    rfl
  | silent h _ _ =>
    cases hplains with
    | cons hplain => exact absurd h hplain.faultless.1
  | code h _ ih =>
    cases hplains with
    | cons hplain hplains => rw [List.map_cons, ih hplains, hplain.eq_of_means h]

/-- **Statements that need no names are a program of their instructions.** -/
theorem link_of_plains (hplains : List.Forall₂ (fun s i => Plain s.action i) ss is) :
    ∃ p, link ss = .ok p ∧ Compiled ss [] ss p.rows ∧ p.rows.map Row.instruction = is := by
  have hplain : ∀ s ∈ ss, ∃ i, Plain s.action i := by
    induction hplains with
    | nil => exact List.forall_mem_nil _
    | cons hfirst _ ih => exact List.forall_mem_cons.mpr ⟨⟨_, hfirst⟩, ih⟩
  have hlinked := link_spec ss
  generalize link ss = outcome at hlinked
  cases hlinked with
  | naming h =>
    obtain ⟨front, s, hs, hfault⟩ := h.exists_fault
    obtain ⟨i, hi⟩ := hplain s hs
    exact absurd hfault (hi.faultless.2.1 _)
  | jump _ _ h =>
    obtain ⟨front, s, hs, hfault⟩ := h.exists_fault
    obtain ⟨i, hi⟩ := hplain s hs
    exact absurd hfault (hi.faultless.2.2 _)
  | program _ _ hrows => exact ⟨_, rfl, hrows, instructions_of_plains hplains hrows⟩

/-- **The texts of instructions are assembled back.**  Let the texts of some instructions, of which
none is a jump or a byte that is no opcode, be joined by white space.  This is a source that is
assembled, and

* its bytes are the encodings of the instructions, one behind another;
* it has a row for each instruction, in their order, whose offset is the sum of the widths before
  it. -/
theorem assemble_joined {source : String} (hwritable : ∀ i ∈ is, Writable i)
    (h : Joined is source.toList) :
    ∃ p, assemble source = .ok p ∧ p.bytes = Instruction.encodeAll is ∧
      p.rows.map (fun row => (row.offset, row.instruction)) = Instruction.laidOut 0 is := by
  obtain ⟨ts, ss, hscanned, hgrouped, hplains⟩ := exists_parsed h hwritable 0
  have hparse : parse source = .ok ss :=
    parse_eq_ok_iff.mpr ⟨ts, tokens_eq_ok_iff.mpr hscanned, hgrouped⟩
  obtain ⟨p, hlink, hrows, hinstructions⟩ := link_of_plains hplains
  have hassemble : assemble source = .ok p := by
    rw [assemble, hparse]
    exact hlink
  refine ⟨p, hassemble, ?_, ?_⟩
  · rw [← hinstructions]
    exact bytesOf_eq_encodeAll p.rows
  · rw [← hinstructions]
    exact listed_of_compiled hrows

/-- The least number of all, the last register and the first, and all kinds of white space. -/
theorem assemble_joined_of_least :
    let is : List Instruction := [.pushInt Int32.minValue, .popReg 31, .pushReg 0, .halt]
    let source := "push -2147483648\n\tpop i31 \x0c push i0\r\nhlt"
    (∀ i ∈ is, Writable i) ∧ Joined is source.toList ∧
      ∃ p, assemble source = .ok p ∧ p.bytes = [2, 128, 0, 0, 0, 3, 31, 1, 0, 0] ∧
        p.rows.map Row.offset = [0, 5, 7, 9] := by
  intro is source
  have hwritable : ∀ i ∈ is, Writable i := by decide
  have hsource : source.toList = (Instruction.pushInt Int32.minValue).text.toList ++
      (['\n', '\t'] ++ ((Instruction.popReg 31).text.toList ++
        ([' ', '\x0c', ' '] ++ ((Instruction.pushReg 0).text.toList ++
          (['\r', '\n'] ++ (Instruction.halt.text.toList ++ ([] ++ []))))))) := by
    unfold source
    decide
  have hjoined : Joined is source.toList := by
    rw [hsource]
    exact .cons (List.all_eq_true.mp rfl) (fun _ => List.cons_ne_nil _ _)
      (.cons (List.all_eq_true.mp rfl) (fun _ => List.cons_ne_nil _ _)
        (.cons (List.all_eq_true.mp rfl) (fun _ => List.cons_ne_nil _ _)
          (.cons (List.all_eq_true.mp rfl) (absurd rfl) .nil)))
  obtain ⟨p, hassemble, hbytes, hrows⟩ := assemble_joined hwritable hjoined
  refine ⟨hwritable, hjoined, p, hassemble, hbytes, ?_⟩
  have hoffsets := congrArg (List.map Prod.fst) hrows
  rw [List.map_map] at hoffsets
  exact hoffsets

end Ledboard.Assembly
