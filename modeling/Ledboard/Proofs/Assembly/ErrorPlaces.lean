/-
# Errors point at their cause

A refusal carries a place, counted in bytes from the start of the source.  It is a place between two
characters, and what stands there is what the refusal is about (`PointsAt`).

* **Lexemes** (`pointsAt_of_refused`).  Before the first thing that is no token there are only
  tokens, white space and comments, which are cut in the same way when they stand alone
  (`ScannedTo.exists_front`).  The text that is carried is as long as a literal or a word can be.
* **Statements** (`misplaced_of_statements`).  A token that is refused is one of the source; if none
  is left where one is needed, the place is the end.
* **Names** (`Spells.exists_operand`).  A statement that refers to a name is an operation or a
  directive with that name behind it, and a jump starts with its keyword.

The first pass that fails is the one that reports (`StopsIn`): a lexeme that is refused comes before
any fault of statements, and this before any of names and jumps, wherever in the source they are.
-/
import Ledboard.Proofs.Assembly.Grammar
import Ledboard.Proofs.Assembly.Linking

namespace Ledboard.Assembly

variable {position place : Nat} {c : Char} {cs rest back : List Char} {l : Lexeme} {t : Token}
  {parts ts : List Token} {s : Statement} {ss : List Statement} {e : AssemblyError}
  {name : String}

/-! ## 1. Places -/

/-- A text stands in a source at a place. -/
def TextAt (source : String) (place : Nat) (text : String) : Prop :=
  ∃ front back, source.toList = front ++ text.toList ++ back ∧ utf8Length front = place

/-- A lexeme stands in a source at a place. -/
def LexemeAt (source : String) (place : Nat) (l : Lexeme) : Prop :=
  ∃ front c tail rest, source.toList = front ++ c :: (tail ++ rest) ∧ utf8Length front = place ∧
    Lexes c (tail ++ rest) l tail.length

/-- What the place of a refusal has to do with its cause. -/
def PointsAt (source : String) : AssemblyError → Prop
  | .unexpectedSymbol place =>
    -- only tokens before it, and none that starts there
    ∃ front ts c rest, source.toList = front ++ c :: rest ∧ utf8Length front = place ∧
      Scanned 0 front ts ∧ Text.isAsciiBlank c = false ∧ ¬ (c = '/' ∧ rest.head? = some '/') ∧
      ∀ l more, ¬ Lexes c rest l more
  | .unexpectedToken place (some l) _ =>
    ∃ ts, Scanned 0 source.toList ts ∧ (∃ t ∈ ts, t.lexeme = l ∧ t.position = place) ∧
      LexemeAt source place l
  | .unexpectedToken place none _ => place = source.utf8ByteSize
  | .numberOutOfRange place text | .registerOutOfRange place text => TextAt source place text
  | .undefinedName place name | .undefinedLocation place name | .duplicateLocation place name =>
    TextAt source place name
  | .jumpOutOfRange place name _ =>
    -- a jump, and the next token is the name
    ∃ before jump operand after, Scanned 0 source.toList (before ++ jump :: operand :: after) ∧
      jump.lexeme = .keyword .jl ∧ jump.position = place ∧ TextAt source place "jl" ∧
      operand.lexeme = .name name ∧ TextAt source operand.position name

/-- The place of a refusal is between two characters. -/
theorem isValid_of_append {source : String} {front back : List Char}
    (h : source.toList = front ++ back) : String.Pos.Raw.IsValid source ⟨utf8Length front⟩ := by
  rw [String.Pos.Raw.isValid_iff_exists_append]
  refine ⟨String.ofList front, String.ofList back, ?_, ?_⟩
  · rw [← String.ofList_append, ← h, String.ofList_toList]
  · rw [String.Pos.Raw.ext_iff, String.byteIdx_rawEndPos, ← utf8Length_toList, String.toList_ofList]

theorem TextAt.isValid {source text : String} (h : TextAt source place text) :
    String.Pos.Raw.IsValid source ⟨place⟩ := by
  obtain ⟨front, back, hsplit, rfl⟩ := h
  rw [List.append_assoc] at hsplit
  exact isValid_of_append hsplit

theorem PointsAt.isValid {source : String} (h : PointsAt source e) :
    String.Pos.Raw.IsValid source ⟨e.position⟩ := by
  cases e with
  | unexpectedSymbol place =>
    obtain ⟨front, ts, c, rest, hsplit, rfl, -⟩ := h
    exact isValid_of_append hsplit
  | unexpectedToken place found expected =>
    cases found with
    | none =>
      obtain rfl : place = source.utf8ByteSize := h
      rw [AssemblyError.position, ← utf8Length_toList]
      exact isValid_of_append (List.append_nil _).symm
    | some l =>
      obtain ⟨-, -, -, front, c, tail, rest, hsplit, rfl, -⟩ := h
      exact isValid_of_append hsplit
  | numberOutOfRange place text => exact TextAt.isValid h
  | registerOutOfRange place text => exact TextAt.isValid h
  | undefinedName place name => exact TextAt.isValid h
  | undefinedLocation place name => exact TextAt.isValid h
  | duplicateLocation place name => exact TextAt.isValid h
  | jumpOutOfRange place name displacement =>
    obtain ⟨-, -, -, -, -, -, -, hkeyword, -⟩ := h
    exact hkeyword.isValid

/-- A token is a lexeme at its place. -/
theorem Scanned.lexemeAt {source : String} {before after : List Token}
    (h : Scanned 0 source.toList (before ++ t :: after)) : LexemeAt source t.position t.lexeme := by
  obtain ⟨front, c, tail, rest, hsplit, hplace, -, hlexes, -⟩ := h.behind
  rw [Nat.zero_add] at hplace
  exact ⟨front, c, tail, rest, hsplit, hplace, hlexes⟩

/-- The word of a keyword stands where the keyword does. -/
theorem LexemeAt.textAt_keyword {source : String} {k : Keyword} (h : LexemeAt source place (.keyword k)) :
    TextAt source place k.word := by
  obtain ⟨front, c, tail, rest, hsplit, hplace, hlexes⟩ := h
  refine ⟨front, rest, ?_, hplace⟩
  rw [hlexes.keyword_text rfl, hsplit, List.append_assoc, List.cons_append]

/-- A name stands where its lexeme does. -/
theorem LexemeAt.textAt_name {source : String} (h : LexemeAt source place (.name name)) :
    TextAt source place name := by
  obtain ⟨front, c, tail, rest, hsplit, hplace, hlexes⟩ := h
  refine ⟨front, rest, ?_, hplace⟩
  rw [hlexes.name_text rfl, hsplit, List.append_assoc, List.cons_append]

/-! ## 2. Lexemes -/

/-- What a refused lexeme is: nothing that is known, or the longest literal or word that starts
there. -/
inductive Unlexable (place : Nat) (c : Char) (rest : List Char) : AssemblyError → Prop where
  | symbol : Unlexable place c rest (.unexpectedSymbol place)
  | number : Unlexable place c rest
      (.numberOutOfRange place (String.ofList (Literal.ofChars (c :: rest)).text))
  | register : Unlexable place c rest
      (.registerOutOfRange place (String.ofList (c :: rest.takeWhile isWordPart)))

/-- A literal has no digits, or too large a value. -/
theorem unlexable_of_numberLexeme
    (h : numberLexeme place (Literal.ofChars (c :: rest)) = .error e) : Unlexable place c rest e := by
  unfold numberLexeme at h
  split at h
  · obtain rfl := Except.error.inj h
    exact .symbol
  · split at h
    · exact absurd h (by simp)
    · obtain rfl := Except.error.inj h
      exact .number

/-- A word is refused only as a register. -/
theorem unlexable_of_wordLexeme
    (h : wordLexeme place (c :: rest.takeWhile isWordPart) = .error e) : Unlexable place c rest e := by
  unfold wordLexeme at h
  simp only at h
  split at h
  · exact absurd h (by simp)
  · split at h
    · exact absurd h (by simp)
    · split at h
      · exact absurd h (by simp)
      · obtain rfl := Except.error.inj h
        exact .register

theorem unlexable_of_lexemeAt (h : lexemeAt place c rest = .error e) :
    Unlexable place c rest e := by
  unfold lexemeAt at h
  simp only at h
  split at h
  -- a directive
  · split at h
    · exact absurd h (by simp)
    · split at h
      · exact absurd h (by simp)
      · obtain rfl := Except.error.inj h
        exact .symbol
  · split at h
    · exact unlexable_of_numberLexeme (map_eq_error_iff.mp h)
    · split at h
      · exact unlexable_of_wordLexeme (map_eq_error_iff.mp h)
      · obtain rfl := Except.error.inj h
        exact .symbol

/-- **A refused lexeme is where the refusal says.** -/
theorem pointsAt_of_refused {source : String} (h : ScannedTo 0 source.toList ts place (c :: rest))
    (hrefused : Refused place c rest e) : PointsAt source e := by
  obtain ⟨hblank, hcomment, hlexeme⟩ := hrefused
  obtain ⟨front, hsplit, hplace, hscanned⟩ := h.exists_front
  rw [Nat.zero_add] at hplace
  have htext : ∀ text : List Char, text <+: c :: rest → TextAt source place (String.ofList text) := by
    rintro text ⟨more, hmore⟩
    rw [← hmore, ← List.append_assoc] at hsplit
    exact ⟨front, more, by rw [String.toList_ofList, hsplit], hplace⟩
  cases unlexable_of_lexemeAt hlexeme with
  | symbol =>
    refine ⟨front, ts, c, rest, hsplit, hplace, hscanned, hblank, hcomment, fun l more hlexes => ?_⟩
    cases hlexeme.symm.trans (lexemeAt_of_lexes hlexes place)
  | number => exact htext _ (Literal.text_ofChars c rest).1
  | register =>
    exact htext _ ((List.prefix_append_right_inj [c]).mpr (List.takeWhile_prefix _))

/-! ## 3. Statements -/

/-- A token is refused, or the end. -/
inductive Misplaced (ending : Nat) (ts : List Token) : AssemblyError → Prop where
  | token {t : Token} (ht : t ∈ ts) (expected : Expected) :
      Misplaced ending ts (unexpected t expected)
  | ending (expected : Expected) : Misplaced ending ts (unexpectedEnd ending expected)

theorem Misplaced.behind {ending : Nat} (parts : List Token) (h : Misplaced ending ts e) :
    Misplaced ending (parts ++ ts) e := by
  cases h with
  | token ht expected => exact .token (List.mem_append_right _ ht) expected
  | ending expected => exact .ending expected

/-- **Tokens that are no statements are refused at one of them or at the end.** -/
theorem misplaced_of_statements {ending : Nat} (h : statements ending ts = .error e) :
    Misplaced ending ts e := by
  rw [statements, map_eq_error_iff] at h
  generalize (#[] : Array Statement) = done at h
  fun_induction statementsFrom ending done ts with
  | case1 => exact absurd h (by simp)
  | case3 done head rest i hform ih => exact (ih h).behind [head]
  | case6 done head expected read hform operand rest action hread ih =>
    exact (ih h).behind [head, operand]
  | case11 done head hform name text hname register rest number hnumber action ih =>
    exact (ih h).behind [head, name, register]
  -- A statement that is incomplete ends the source.
  | case4 | case7 | case9 =>
    obtain rfl := Except.error.inj h
    exact .ending _
  | case2 | case5 | case8 | case10 =>
    obtain rfl := Except.error.inj h
    exact .token (by simp) _

/-- A misplaced token is where the refusal says. -/
theorem pointsAt_of_misplaced {source : String} (hscanned : Scanned 0 source.toList ts)
    (h : Misplaced source.utf8ByteSize ts e) : PointsAt source e := by
  cases h with
  | ending => rfl
  | @token t ht =>
    obtain ⟨before, after, rfl⟩ := List.append_of_mem ht
    exact ⟨_, hscanned, ⟨t, ht, rfl, rfl⟩, hscanned.lexemeAt⟩

/-! ## 4. Names -/

/-- The name that an action refers to, or that it marks. -/
def Action.name? : Action → Option String
  | .push (.name name) | .pop (.name name) | .jump name | .here name => some name
  | _ => none

/-- An action has the name that its operand is. -/
theorem eq_name_of_read {head operand : Lexeme} {expected : Expected}
    {read : Lexeme → Option Action} {action : Action}
    (h : head.form? = some (.unary expected read)) (hread : read operand = some action)
    (hname : action.name? = some name) : operand = .name name := by
  have hmap : ∀ make : String → Action, (∀ n, (make n).name? = some n) →
      operand.name?.map make = some action → operand = .name name := by
    intro make hmake hmap
    obtain ⟨other, hother, rfl⟩ := Option.map_eq_some_iff.mp hmap
    obtain rfl := Option.some.inj ((hmake other).symm.trans hname)
    cases operand with
    | name text => exact congrArg _ (Option.some.inj hother)
    | _ => exact absurd hother (by simp [Lexeme.name?])
  rcases read_of_unary h with rfl | rfl | rfl | rfl
  · unfold pushOperand? at hread
    split at hread
    · obtain rfl := Option.some.inj hread
      exact absurd hname (by simp [Action.name?])
    · obtain rfl := Option.some.inj hread
      exact absurd hname (by simp [Action.name?])
    · obtain rfl := Option.some.inj hread
      exact congrArg _ (Option.some.inj hname)
    · exact absurd hread (by simp)
  · unfold popOperand? at hread
    split at hread
    · obtain rfl := Option.some.inj hread
      exact absurd hname (by simp [Action.name?])
    · obtain rfl := Option.some.inj hread
      exact congrArg _ (Option.some.inj hname)
    · exact absurd hread (by simp)
  · exact hmap .jump (fun _ => rfl) hread
  · exact hmap .here (fun _ => rfl) hread

/-- Only the keyword of a jump makes one. -/
theorem eq_jl_of_read {head operand : Lexeme} {expected : Expected}
    {read : Lexeme → Option Action} (h : head.form? = some (.unary expected read))
    (hread : read operand = some (.jump name)) : head = .keyword .jl := by
  unfold Lexeme.form? at h
  split at h <;> simp only [Option.some.injEq, Form.unary.injEq, reduceCtorEq] at h
  · obtain ⟨-, rfl⟩ := h
    unfold pushOperand? at hread
    split at hread <;> simp at hread
  · obtain ⟨-, rfl⟩ := h
    unfold popOperand? at hread
    split at hread <;> simp at hread
  · rfl
  · obtain ⟨-, rfl⟩ := h
    simp at hread

/-- **A statement with a name is an operation or a directive, and the name**, which is its operand;
a jump starts with its keyword. -/
theorem Spells.exists_operand (h : Spells parts s) (hname : s.action.name? = some name) :
    ∃ head operand, parts = [head, operand] ∧ operand.lexeme = .name name ∧
      s.position = head.position ∧ s.operandPosition = operand.position ∧
      (s.action = .jump name → head.lexeme = .keyword .jl) := by
  cases h with
  | plain => exact absurd hname (by simp [Statement.between, Action.name?])
  | naming => exact absurd hname (by simp [Statement.between, Action.name?])
  | @unary head operand expected read action h hread =>
    refine ⟨head, operand, rfl, eq_name_of_read h hread hname, rfl, rfl, fun haction => ?_⟩
    obtain rfl : action = .jump name := haction
    exact eq_jl_of_read h hread

/-- A name that a fault is about stands where the fault says. -/
theorem textAt_of_name {source : String} (hscanned : Scanned 0 source.toList ts)
    (hgrouped : Grouped ts ss) (hs : s ∈ ss) (hname : s.action.name? = some name) :
    TextAt source s.operandPosition name := by
  obtain ⟨front, back, rfl⟩ := List.append_of_mem hs
  obtain ⟨before, parts, after, rfl, hspells⟩ := hgrouped.split
  obtain ⟨head, operand, rfl, hlexeme, -, hplace, -⟩ := hspells.exists_operand hname
  have hoperand : Scanned 0 source.toList ((before ++ [head]) ++ operand :: after) := by
    simpa using hscanned
  have hat := hoperand.lexemeAt
  rw [hlexeme, ← hplace] at hat
  exact hat.textAt_name

/-- A naming fault points at the name. -/
theorem pointsAt_of_namingFault {source : String} {before : List Statement}
    (hscanned : Scanned 0 source.toList ts) (hgrouped : Grouped ts ss) (hs : s ∈ ss)
    (h : NamingFault ss before s e) : PointsAt source e := by
  cases h with
  | undefined haction =>
    refine textAt_of_name hscanned hgrouped hs ?_
    rcases haction with haction | haction <;> rw [haction] <;> rfl
  | repeated haction =>
    exact textAt_of_name hscanned hgrouped hs (by rw [haction]; rfl)

/-- A jump fault points at the name or at the jump. -/
theorem pointsAt_of_jumpFault {source : String} {before : List Statement}
    (hscanned : Scanned 0 source.toList ts) (hgrouped : Grouped ts ss) (hs : s ∈ ss)
    (h : JumpFault ss before s e) : PointsAt source e := by
  cases h with
  | undefined haction => exact textAt_of_name hscanned hgrouped hs (by rw [haction]; rfl)
  | @tooFar target offset d haction =>
    have hname : s.action.name? = some target := by rw [haction]; rfl
    have hoperand := textAt_of_name hscanned hgrouped hs hname
    obtain ⟨front, back, rfl⟩ := List.append_of_mem hs
    obtain ⟨earlier, parts, after, rfl, hspells⟩ := hgrouped.split
    obtain ⟨head, operand, rfl, hlexeme, hstart, hplace, hjump⟩ := hspells.exists_operand hname
    have hhead : Scanned 0 source.toList (earlier ++ head :: operand :: after) := by
      simpa using hscanned
    have hat := hhead.lexemeAt
    rw [hjump haction, ← hstart] at hat
    rw [hplace] at hoperand
    exact ⟨earlier, head, operand, after, hhead, hjump haction, hstart.symm, hat.textAt_keyword,
      hlexeme, hoperand⟩

/-- What linking refuses is the fault of a statement. -/
theorem exists_fault_of_link (h : link ss = .error e) :
    ∃ before, ∃ s ∈ ss, NamingFault ss before s e ∨ JumpFault ss before s e := by
  have hlinked := link_spec ss
  rw [h] at hlinked
  cases hlinked with
  | naming hfirst =>
    obtain ⟨before, s, hs, hfault⟩ := hfirst.exists_fault
    exact ⟨before, s, hs, .inl hfault⟩
  | jump _ _ hfirst =>
    obtain ⟨before, s, hs, hfault⟩ := hfirst.exists_fault
    exact ⟨before, s, hs, .inr hfault⟩

/-! ## 5. Passes -/

/-- The passes over a source. -/
inductive Pass where
  /-- cutting it into tokens -/
  | tokens
  /-- grouping them into statements -/
  | statements
  /-- laying these out and settling the jumps -/
  | program
  deriving DecidableEq, Repr

/-- The pass that reports a refusal. -/
def AssemblyError.pass : AssemblyError → Pass
  | .unexpectedSymbol _ | .numberOutOfRange _ _ | .registerOutOfRange _ _ => .tokens
  | .unexpectedToken _ _ _ => .statements
  | .undefinedName _ _ | .undefinedLocation _ _ | .duplicateLocation _ _
  | .jumpOutOfRange _ _ _ => .program

/-- The first pass that does not go through, whatever a later one would find. -/
def StopsIn (source : String) : Pass → Prop
  | .tokens => ∀ ts, ¬ Scanned 0 source.toList ts
  | .statements => ∃ ts, Scanned 0 source.toList ts ∧ ∀ ss, ¬ Grouped ts ss
  | .program => ∃ ts ss, Scanned 0 source.toList ts ∧ Grouped ts ss

theorem Scanned.unique {source : String} {ts' : List Token} (h : Scanned 0 source.toList ts)
    (h' : Scanned 0 source.toList ts') : ts = ts' :=
  Except.ok.inj ((tokens_eq_ok_iff.mpr h).symm.trans (tokens_eq_ok_iff.mpr h'))

/-- A source stops in one pass at most. -/
theorem StopsIn.unique {source : String} {p q : Pass} (hp : StopsIn source p)
    (hq : StopsIn source q) : p = q := by
  match p, q, hp, hq with
  | .tokens, .tokens, _, _ | .statements, .statements, _, _ | .program, .program, _, _ => rfl
  | .tokens, .statements, hnone, ⟨ts, hts, _⟩ => exact absurd hts (hnone ts)
  | .tokens, .program, hnone, ⟨ts, _, hts, _⟩ => exact absurd hts (hnone ts)
  | .statements, .tokens, ⟨ts, hts, _⟩, hnone => exact absurd hts (hnone ts)
  | .program, .tokens, ⟨ts, _, hts, _⟩, hnone => exact absurd hts (hnone ts)
  | .statements, .program, ⟨ts, hts, hnone⟩, ⟨ts', ss, hts', hss⟩ =>
    exact absurd (hts.unique hts' ▸ hss) (hnone ss)
  | .program, .statements, ⟨ts', ss, hts', hss⟩, ⟨ts, hts, hnone⟩ =>
    exact absurd (hts.unique hts' ▸ hss) (hnone ss)

/-- **The pass that reports is the first one that does not go through**, and it points at the
cause. -/
theorem pointsAt_of_assemble {source : String} (h : assemble source = .error e) :
    PointsAt source e ∧ StopsIn source e.pass := by
  rcases bind_eq_error_iff.mp h with hparse | ⟨ss, hparse, hlink⟩
  · rcases bind_eq_error_iff.mp hparse with htokens | ⟨ts, htokens, hstatements⟩
    · obtain ⟨ts, place, c, rest, hpassed, hrefused⟩ := tokens_eq_error_iff.mp htokens
      have hpass : e.pass = .tokens := by
        cases unlexable_of_lexemeAt hrefused.lexeme <;> rfl
      refine ⟨pointsAt_of_refused hpassed hrefused, ?_⟩
      rw [hpass]
      intro ts hts
      cases htokens.symm.trans (tokens_eq_ok_iff.mpr hts)
    · have hscanned := tokens_eq_ok_iff.mp htokens
      have hmisplaced := misplaced_of_statements hstatements
      have hpass : e.pass = .statements := by
        cases hmisplaced <;> rfl
      refine ⟨pointsAt_of_misplaced hscanned hmisplaced, ?_⟩
      rw [hpass]
      refine ⟨ts, hscanned, fun ss hss => ?_⟩
      cases hstatements.symm.trans (statements_eq_ok_iff.mpr hss)
  · obtain ⟨ts, htokens, hgrouped⟩ := parse_eq_ok_iff.mp hparse
    have hscanned := tokens_eq_ok_iff.mp htokens
    obtain ⟨before, s, hs, hfault⟩ := exists_fault_of_link hlink
    have hpass : e.pass = .program := by
      rcases hfault with hfault | hfault <;> cases hfault <;> rfl
    refine ⟨?_, hpass ▸ ⟨ts, ss, hscanned, hgrouped⟩⟩
    rcases hfault with hfault | hfault
    · exact pointsAt_of_namingFault hscanned hgrouped hs hfault
    · exact pointsAt_of_jumpFault hscanned hgrouped hs hfault

/-- **Refusals point at their cause.**  For every source that is refused:

* the place lies in the source, or is its end, and it is between two characters;
* it is the start of what the refusal is about: of the first thing that is no token, behind a text
  that is cut into tokens by itself; of the text or the name that is carried; of the keyword of a
  jump to the name; of the token that does not fit, or the end of the source;
* the refusal is one of cutting exactly if the source as a whole cannot be cut into tokens, one of
  grouping exactly if it can and the tokens are not statements, and one of names or jumps exactly if
  they are. -/
theorem errors_point_at_their_cause {source : String} {e : AssemblyError}
    (h : assemble source = .error e) :
    e.position ≤ source.utf8ByteSize ∧ String.Pos.Raw.IsValid source ⟨e.position⟩ ∧
      PointsAt source e ∧ ∀ p, StopsIn source p ↔ e.pass = p := by
  obtain ⟨hpoints, hstops⟩ := pointsAt_of_assemble h
  have hvalid := hpoints.isValid
  refine ⟨hvalid.le_utf8ByteSize, hvalid, hpoints, fun p => ⟨fun hp => hstops.unique hp, ?_⟩⟩
  rintro rfl
  exact hstops

/-- Behind a comment that is not ASCII: a character that starts no token, in a source whose tokens
are no statement before it, and the name of a jump that leads nowhere. -/
theorem errors_point_at_their_cause_of_comment :
    assemble "pop 5 // é\n$" = .error (.unexpectedSymbol 12) ∧
      PointsAt "pop 5 // é\n$" (.unexpectedSymbol 12) ∧ StopsIn "pop 5 // é\n$" .tokens ∧
      assemble "// é\npush 5 jl x" = .error (.undefinedLocation 16 "x") ∧
      TextAt "// é\npush 5 jl x" 16 "x" ∧ StopsIn "// é\npush 5 jl x" .program := by
  have hsymbol : assemble "pop 5 // é\n$" = .error (.unexpectedSymbol 12) := by decide +kernel
  have hname : assemble "// é\npush 5 jl x" = .error (.undefinedLocation 16 "x") := by
    decide +kernel
  obtain ⟨-, -, hfirst, hstops⟩ := errors_point_at_their_cause hsymbol
  obtain ⟨-, -, hsecond, hlater⟩ := errors_point_at_their_cause hname
  exact ⟨hsymbol, hfirst, (hstops .tokens).mpr rfl, hname, hsecond, (hlater .program).mpr rfl⟩

end Ledboard.Assembly
