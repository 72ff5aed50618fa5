/-
# Sources of lines

A source is often written as lines, indented and with one statement or one comment in each.  Such a
source is cut into just these statements (`exists_parsed_lines`).  Its parts are the names,
directives and hexadecimal numbers that listings do not have; keywords, registers and decimal
numbers are the same as there.

What the statements are assembled into depends on what they ask for, and not on where they stand
(`link_of_bare`): positions are only kept for messages and for the source map.  So a source is
assembled by assembling its actions (`assemble_lines`).
-/
import Ledboard.Proofs.Assembly.Relocation
import Ledboard.Proofs.Assembly.Texts

namespace Ledboard.Assembly

variable {n : Nat} {c : Char} {text tail digits gap : List Char} {action : Action}

/-! ## 1. Lexemes -/

/-- **Words that are neither keywords nor registers are names.** -/
theorem writtenAs_name (c : Char) (tail : List Char) {name : String}
    (hname : name.toList = c :: tail)
    (hc : isWordStart c = true) (htail : tail.all isWordPart = true)
    (hword : Keyword.ofWord? name = none) (hregister : registerDigits? (c :: tail) = none) :
    (Lexeme.name name).WrittenAs name.toList := by
  have hsame : name = String.ofList (c :: tail) := by rw [← hname, String.ofList_toList]
  rw [hsame] at hword
  rw [hname, hsame]
  exact writtenAs_word hc (List.all_eq_true.mp htail) (.name hword hregister)

/-- The two directives. -/
theorem writtenAs_directive {word : List Char} {l : Lexeme}
    (h : word = "name".toList ∧ l = .nameDirective ∨ word = "here".toList ∧ l = .hereDirective) :
    l.WrittenAs ('#' :: word) := by
  have hword : word.all isWordPart = true := by rcases h with ⟨rfl, -⟩ | ⟨rfl, -⟩ <;> decide
  have hrun := List.takeWhile_eq_self_iff.mpr (List.all_eq_true.mp hword)
  exact writtenAs_of_lexes (.directive rfl hrun h)

/-- **Hexadecimal numbers of 32 bits are read as their values.** -/
theorem writtenAs_hex (digits : List Char) (hdigits : digits ≠ [])
    (hall : digits.all (Text.isDigitOf 16) = true)
    (hvalue : Text.valueUpTo? 16 4294967295 digits = some n) :
    (Lexeme.number (Int32.ofInt n)).WrittenAs ('0' :: 'x' :: digits) := by
  have hliteral : Literal.ofChars ('0' :: 'x' :: digits) = ⟨[], ['0', 'x'], 16, digits⟩ := by
    have hrun := List.takeWhile_eq_self_iff.mpr (List.all_eq_true.mp hall)
    rw [Literal.ofChars_of_ne_minus (by decide)]
    exact congrArg (Literal.mk [] ['0', 'x'] 16) hrun
  have hnumber : IsNumber ⟨[], ['0', 'x'], 16, digits⟩ (.number (Int32.ofInt n)) := by
    refine .mk hdigits ?_
    have hlimit : Literal.limit ⟨[], ['0', 'x'], 16, digits⟩ = 4294967295 := rfl
    rw [Literal.value?, hlimit, hvalue]
    rfl
  exact writtenAs_literal (Or.inl (by decide)) hliteral rfl hnumber

/-! ## 2. Lines -/

/-- The directive that names a register. -/
theorem says_naming {name : String} {register : UInt8} {first second : List Char}
    (hname : (Lexeme.name name).WrittenAs first)
    (hregister : (Lexeme.register register).WrittenAs second) :
    Says ('#' :: ("name".toList ++ ' ' :: (first ++ ' ' :: second)))
      (.nameRegister name register) := by
  intro back hback position
  have hblank : ∀ more, Ends (' ' :: more) := by
    rintro more c ⟨⟩
    rfl
  obtain ⟨head, afterHead, hhead, hscanHead⟩ := scanned_of_writtenAs
    (writtenAs_directive (Or.inl ⟨rfl, rfl⟩)) (hblank (first ++ ' ' :: (second ++ back))) position
  obtain ⟨given, afterName, hgiven, hscanName⟩ :=
    scanned_of_writtenAs hname (hblank (second ++ back)) (afterHead + 1)
  obtain ⟨place, next, hplace, hscanPlace⟩ := scanned_of_writtenAs hregister hback (afterName + 1)
  refine ⟨[head, given, place], _, next,
    .naming (by rw [hhead]; rfl) (by rw [hgiven]; rfl) (by rw [hplace]; rfl), rfl, ?_⟩
  intro ts hts
  have hall := hscanHead _ (.blank rfl (hscanName _ (.blank rfl (hscanPlace ts hts))))
  simpa using hall

/-- A line without its indentation: a statement that asks for an action, or a comment. -/
inductive Line : List Char → Option Action → Prop where
  | statement {text : List Char} {action : Action} (h : Says text action) : Line text (some action)
  | comment (text : List Char) (h : '\n' ∉ text) : Line ('/' :: '/' :: text) none

/-- Lines one behind another, each behind an indentation and with its end. -/
def indented (gap : List Char) (lines : List (List Char)) : List Char :=
  lines.flatMap (fun line => gap ++ (line ++ ['\n']))

/-- **Lines are cut into their statements**, with white space in front of each and behind the
last. -/
theorem exists_parsed_lines (hgap : ∀ c ∈ gap, Text.isAsciiBlank c = true)
    {lines : List (List Char)} {actions : List (Option Action)}
    (h : List.Forall₂ Line lines actions) (position : Nat) :
    ∃ ts ss, Scanned position (indented gap lines ++ gap) ts ∧ Grouped ts ss ∧
      ss.map Statement.action = actions.filterMap id := by
  induction h generalizing position with
  | nil =>
    refine ⟨[], [], ?_, .nil, rfl⟩
    have hscanned := scanned_of_blanks hgap (Scanned.nil (position + gap.length))
    rwa [List.append_nil] at hscanned
  | @cons line action lines actions hline _ ih =>
    have hsplit : indented gap (line :: lines) ++ gap =
        gap ++ (line ++ '\n' :: (indented gap lines ++ gap)) := by
      simp only [indented, List.flatMap_cons, List.append_assoc, List.cons_append, List.nil_append]
    have hend : Ends ('\n' :: (indented gap lines ++ gap)) := by
      rintro c ⟨⟩
      rfl
    rw [hsplit]
    cases hline with
    | statement hsays =>
      obtain ⟨parts, s, next, hspells, rfl, hscanned⟩ :=
        hsays _ hend (position + gap.length)
      obtain ⟨ts, ss, hts, hgrouped, hactions⟩ := ih (next + 1)
      refine ⟨parts ++ ts, s :: ss, scanned_of_blanks hgap (hscanned ts (.blank rfl hts)),
        .cons hspells hgrouped, ?_⟩
      rw [List.map_cons, hactions]
      rfl
    | comment text htext =>
      obtain ⟨ts, ss, hts, hgrouped, hactions⟩ :=
        ih (position + gap.length + 2 + utf8Length text + 1)
      refine ⟨ts, ss, scanned_of_blanks hgap (.comment htext ?_ (.blank rfl hts)), hgrouped,
        hactions⟩
      rintro c ⟨⟩
      rfl

/-! ## 3. Where statements stand -/

/-- A statement without its places. -/
def Action.bare (action : Action) : Statement := ⟨action, 0, 0, 0⟩

/-- Every text at the start, and empty. -/
def nowhere : Relocation := ⟨fun _ => 0, fun _ => 0⟩

variable {ss : List Statement}

/-- **What statements are assembled into does not depend on where they stand.** -/
theorem link_of_bare {actions : List Action} {p : Program} (hss : ss.map Statement.action = actions)
    (h : link (actions.map Action.bare) = .ok p) :
    ∃ p', link ss = .ok p' ∧ p'.instructions = p.instructions := by
  subst hss
  rw [List.map_map] at h
  change link (ss.map nowhere.statement) = .ok p at h
  rw [Relocation.link_statement] at h
  cases hlink : link ss with
  | error e =>
    rw [hlink] at h
    exact nomatch h
  | ok p' =>
    rw [hlink] at h
    obtain rfl := Except.ok.inj h
    exact ⟨p', rfl, (Relocation.instructions_program _ p').symm⟩

/-- **A source of lines is assembled by its actions.** -/
theorem assemble_lines {source : String} {lines : List (List Char)}
    {actions : List (Option Action)} (hgap : ∀ c ∈ gap, Text.isAsciiBlank c = true)
    (hsource : source.toList = '\n' :: (indented gap lines ++ gap))
    (h : List.Forall₂ Line lines actions) {p : Program}
    (hlink : link ((actions.filterMap id).map Action.bare) = .ok p) :
    ∃ p', assemble source = .ok p' ∧ p'.instructions = p.instructions := by
  obtain ⟨ts, ss, hscanned, hgrouped, hactions⟩ := exists_parsed_lines hgap h 1
  have hparse : parse source = .ok ss := by
    refine parse_eq_ok_iff.mpr ⟨ts, tokens_eq_ok_iff.mpr ?_, hgrouped⟩
    rw [hsource]
    exact .blank rfl hscanned
  obtain ⟨p', hp', hsame⟩ := link_of_bare hactions hlink
  refine ⟨p', ?_, hsame⟩
  rw [assemble, hparse]
  exact hp'

end Ledboard.Assembly
