/-
# The rows of a program point at its source

Each row of an assembled program points at the text of its statement (`SpanOf`), and the rows agree
with what a listing of the bytes finds (`rows_agree`).

* **Listings** (`listingFrom_of_compiled`).  A listing reads back what the rows encode, row for row,
  because each instruction is canonical and they lie one behind another (`listed_of_compiled`).
* **Texts** (`exists_text`, `exists_spanOf`).  A statement is spelled by some tokens side by side,
  and the text from the first of them to the last one is cut into the same tokens when it stands
  alone.  The text of a row is that of its statement.
* **Texts alone** (`assemble_of_spanOf`).  So the text alone is the statement alone, and a statement
  without names means the same instruction as in its place.
-/
import Ledboard.Proofs.Assembly.Grammar
import Ledboard.Proofs.Assembly.Tiling
import Ledboard.Proofs.Listing

namespace Ledboard

namespace Assembly

/-! ## 1. Listings -/

variable {ss before rest : List Statement} {rows : List Row}

/-- A row as a listing has it. -/
def Row.listed (row : Row) : Nat × Instruction := (row.offset, row.instruction)

/-- **The instructions of the rows lie one behind another.** -/
theorem listed_of_compiled (h : Compiled ss before rest rows) :
    rows.map Row.listed =
      Instruction.laidOut (emittedSize before) (rows.map Row.instruction) := by
  induction h with
  | nil => rfl
  | @silent before rest s rows h hrest ih =>
    rw [ih, emittedSize_snoc, width_of_means_none h, Nat.add_zero]
  | @code before rest s rows i h hrest ih =>
    rw [List.map_cons, ih, List.map_cons, Instruction.laidOut_cons, width_of_means h,
      ← emittedSize_snoc]
    rfl

theorem bytesOf_eq_encodeAll (rows : List Row) :
    bytesOf rows = Instruction.encodeAll (rows.map Row.instruction) := by
  rw [bytesOf, Instruction.encodeAll, List.flatMap_map]

/-- **A listing of the rows' bytes finds the rows.** -/
theorem listingFrom_of_compiled (h : Compiled ss before rest rows)
    (hcanonical : ∀ row ∈ rows, row.instruction.Canonical) :
    Instruction.listingFrom (emittedSize before) (bytesOf rows) = rows.map Row.listed := by
  rw [bytesOf_eq_encodeAll, listed_of_compiled h]
  exact Instruction.listingFrom_encodeAll (List.forall_mem_map.mpr hcanonical) _

/-- Rows that lie one behind another, from the start of a program to its end. -/
structure Consecutive (p : Program) : Prop where
  first : ∀ row, p.rows.head? = some row → row.offset = 0
  next : ∀ a b, [a, b] <:+: p.rows → b.offset = a.offset + a.instruction.width
  last : ∀ row, p.rows.getLast? = some row →
    row.offset + row.instruction.width = p.bytes.length

theorem consecutive_of_compiled {p : Program} (h : Compiled ss [] ss p.rows) : Consecutive p := by
  have hlisted : p.rows.map Row.listed = Instruction.laidOut 0 (p.rows.map Row.instruction) :=
    listed_of_compiled h
  constructor
  case first =>
    intro row hrow
    have hhead : (p.rows.map Row.listed).head? = some row.listed := by
      rw [List.head?_map, hrow, Option.map_some]
    exact Instruction.address_of_head? (hlisted ▸ hhead)
  case next =>
    intro a b hrows
    exact Instruction.address_of_next (hlisted ▸ hrows.map Row.listed)
  case last =>
    intro row hrow
    have hlast : (p.rows.map Row.listed).getLast? = some row.listed := by
      rw [List.getLast?_map, hrow, Option.map_some]
    have hlength : p.bytes.length =
        Instruction.totalWidth (p.rows.map Row.instruction) := by
      rw [← Instruction.length_encodeAll, ← bytesOf_eq_encodeAll]
      rfl
    rw [hlength, ← Nat.zero_add (Instruction.totalWidth _)]
    exact Instruction.address_of_getLast? (hlisted ▸ hlast)

/-! ## 2. Spans -/

/-- **The rows point at the statements that emit code**, in their order. -/
theorem spans_of_compiled (h : Compiled ss before rest rows) :
    rows.map (fun row => (row.position, row.length)) =
      (rest.filter (fun s => 0 < s.action.width)).map (fun s => (s.position, s.length)) := by
  induction h with
  | nil => rfl
  | @silent before rest s rows h hrest ih =>
    rw [List.filter_cons_of_neg (by simp [width_of_means_none h]), ih]
  | @code before rest s rows i h hrest ih =>
    have hemits : 0 < s.action.width := width_of_means h ▸ i.width_pos
    rw [List.filter_cons_of_pos (by simpa using hemits), List.map_cons, List.map_cons, ih]

/-- **Each row's text ends before the next one's starts.** -/
theorem ordered_of_compiled (h : Compiled ss before rest rows)
    (hrest : rest.Pairwise (fun a b => a.position + a.length ≤ b.position)) :
    rows.Pairwise (fun a b => a.position + a.length ≤ b.position) := by
  have hemitting := hrest.sublist (List.filter_sublist (p := fun s => 0 < s.action.width))
  have hspans : (rows.map (fun row => (row.position, row.length))).Pairwise
      (fun a b => a.1 + a.2 ≤ b.1) := by
    rw [spans_of_compiled h]
    exact List.pairwise_map.mpr hemitting
  exact List.pairwise_map.mp hspans

/-- What stands in a source where a row points: a text that is cut into some tokens, and these spell
a statement that means the row's instruction. -/
structure SpanOf (source : String) (row : Row) (text : List Char) (parts : List Token) : Prop where
  /-- the text stands where the row points -/
  place : ∃ front back, source.toList = front ++ text ++ back ∧ utf8Length front = row.position
  length : utf8Length text = row.length
  /-- alone it is cut into the tokens -/
  alone : tokens (String.ofList text) = .ok parts
  /-- and so it is in the source -/
  among : ∃ ts, tokens source = .ok ts ∧ parts.map (Token.behind row.position) <:+: ts
  /-- there they spell a statement -/
  statement : ∃ ss before s after, parse source = .ok ss ∧ ss = before ++ s :: after ∧
    Spells (parts.map (Token.behind row.position)) s ∧
    Means ss before s.action (some row.instruction)
  /-- the text starts with the keyword of the statement -/
  keyword : ∃ k length more, parts = ⟨.keyword k, 0, length⟩ :: more ∧ k.word.toList <+: text
  /-- and ends where its last token does -/
  ending : endOf 0 parts = row.length

/-- The tokens of a source are in order. -/
theorem inOrder_of_tokens {source : String} {ts : List Token} (h : tokens source = .ok ts) :
    InOrder ts := by
  have hscanned := tokens_eq_ok_iff.mp h
  exact ⟨fun t ht => (hscanned.bounds t ht).2.1, hscanned.ordered⟩

/-- Some tokens in a row are in order if all are. -/
theorem InOrder.part {before parts after : List Token} (h : InOrder (before ++ parts ++ after)) :
    InOrder parts := by
  refine ⟨fun t ht => h.1 t (by simp [ht]), ?_⟩
  exact (List.pairwise_append.mp (List.pairwise_append.mp h.2).1).2.1

/-- **The text of a statement is cut into the statement's tokens when it stands alone.** -/
theorem exists_text {source : String} {ts before spelled after : List Token} {s : Statement}
    (hts : tokens source = .ok ts) (hsplit : ts = before ++ spelled ++ after)
    (hspells : Spells spelled s) :
    ∃ front text back parts, source.toList = front ++ text ++ back ∧
      utf8Length front = s.position ∧ utf8Length text = s.length ∧
      tokens (String.ofList text) = .ok parts ∧
      parts.map (Token.behind s.position) = spelled ∧ endOf 0 parts = s.length := by
  have hscanned := tokens_eq_ok_iff.mp hts
  have hordered : InOrder spelled := (hsplit ▸ inOrder_of_tokens hts).part
  obtain ⟨head, more, rfl, hstart, hending⟩ := hspells.span hordered.2
  rw [hsplit] at hscanned
  obtain ⟨front, text, back, parts, hsource, hfront, halone, hmap, htext⟩ := hscanned.part
  have hend : endOf 0 parts = s.length := by
    have hmoved := endOf_behind head.position 0 parts
    rw [hmap, Nat.add_zero, ← hending, hstart] at hmoved
    exact (Nat.add_left_cancel hmoved).symm
  have hparts : tokens (String.ofList text) = .ok parts := by
    rw [tokens_eq_ok_iff, String.toList_ofList]
    exact halone
  rw [← hstart] at hfront hmap
  exact ⟨front, text, back, parts, hsource, hfront, htext.trans hend, hparts, hmap, hend⟩

/-- **Each row points at the text of its statement.** -/
theorem exists_spanOf {source : String} {row : Row} (hparse : parse source = .ok ss)
    (h : Compiled ss [] ss rows) (hrow : row ∈ rows) :
    ∃ text parts, SpanOf source row text parts := by
  obtain ⟨ts, hts, hgrouped⟩ := parse_eq_ok_iff.mp hparse
  obtain ⟨before, s, after, hss, hmeans, -, hposition, hlength⟩ := statement_of_row h hrow
  obtain ⟨tsBefore, spelled, tsAfter, hsplit, hspells⟩ := (hss ▸ hgrouped).split
  have hemits : 0 < s.action.width := width_of_means hmeans ▸ row.instruction.width_pos
  obtain ⟨head, more, k, rfl, hkeyword⟩ := hspells.keyword hemits
  have hordered : InOrder (head :: more) := (hsplit ▸ inOrder_of_tokens hts).part
  obtain ⟨_, _, heq, hstart, -⟩ := hspells.span hordered.2
  obtain ⟨rfl, rfl⟩ := List.cons.inj heq
  obtain ⟨front, text, back, parts, hsource, hfront, htext, halone, hmap, hend⟩ :=
    exists_text hts hsplit hspells
  rw [← hposition] at hfront hmap hstart
  obtain ⟨first, others, rfl, hbehind, -⟩ := List.map_eq_cons_iff.mp hmap
  have hfirst : first = ⟨.keyword k, 0, head.length⟩ :=
    hkeyword ▸ Token.eq_of_behind (hstart ▸ hbehind)
  have hscanned := tokens_eq_ok_iff.mp halone
  rw [String.toList_ofList, hfirst] at hscanned
  refine ⟨text, first :: others, ?_⟩
  constructor
  case place => exact ⟨front, back, hsource, hfront⟩
  case length => exact htext.trans hlength.symm
  case alone => exact halone
  case among => exact ⟨ts, hts, tsBefore, tsAfter, hmap ▸ hsplit.symm⟩
  case statement => exact ⟨ss, before, s, after, hparse, hss, hmap ▸ hspells, hmeans⟩
  case keyword => exact ⟨k, head.length, others, by rw [hfirst], hscanned.spells_keyword⟩
  case ending => exact hend.trans hlength.symm

/-! ## 3. Statements alone -/

/-- An instruction that is known by itself means the same wherever it stands. -/
theorem Plain.eq_of_means {a : Action} {i j : Instruction} (h : Plain a i)
    (hmeans : Means ss before a (some j)) : j = i := by
  cases h with
  | emit => cases hmeans with | emit => rfl
  | push => cases hmeans with | push hdenotes => cases hdenotes with | number => rfl
  | pop => cases hmeans with | pop hdenotes => cases hdenotes with | number => rfl

/-- A statement that is known by itself is a program of one row. -/
theorem link_of_plain {s : Statement} {i : Instruction} (h : Plain s.action i) :
    link [s] = .ok ⟨[⟨0, i, s.position, s.length⟩]⟩ := by
  obtain ⟨action, position, length, operandPosition⟩ := s
  cases h <;> rfl

/-- **The text of a statement without names is a program of its own**, whose one row is the
statement's. -/
theorem assemble_of_spanOf {source : String} {row : Row} {text : List Char} {parts : List Token}
    (h : SpanOf source row text parts) (hnames : ∀ t ∈ parts, t.lexeme.name? = none) :
    assemble (String.ofList text) = .ok ⟨[⟨0, row.instruction, 0, row.length⟩]⟩ := by
  obtain ⟨ss, before, s, after, -, -, hspells, hmeans⟩ := h.statement
  obtain ⟨s', hspells', haction⟩ := hspells.moved
  obtain ⟨i, hplain⟩ := hspells'.exists_plain hnames
  have hinstruction : row.instruction = i := (haction ▸ hplain).eq_of_means hmeans
  obtain ⟨k, length, more, hparts, -⟩ := h.keyword
  obtain ⟨head, others, heq, hstart, hending⟩ := hspells'.span (inOrder_of_tokens h.alone).2
  have hposition : s'.position = 0 := by
    rw [hstart, ← (List.cons.inj (hparts.symm.trans heq)).1]
  have hzero : head.position = 0 := hstart.symm.trans hposition
  rw [hzero, h.ending, hposition, Nat.zero_add] at hending
  have hparse : parse (String.ofList text) = .ok [s'] :=
    parse_eq_ok_iff.mpr ⟨parts, h.alone, List.append_nil parts ▸ .cons hspells' .nil⟩
  have hlink := link_of_plain hplain
  rw [hposition, hending, ← hinstruction] at hlink
  rw [assemble, hparse]
  exact hlink

/-! ## 4. The whole -/

/-- **The rows of a program agree with its bytes and with its source.**  For every source that is
assembled:

* the rows lie one behind another, from the start of the program to its end;
* a listing of the bytes finds one instruction for each row, at the row's offset, and encoding what
  it finds gives the bytes back;
* there is a row for each statement that emits code, in their order, with the span of its text;
* the texts of the rows are not empty, lie in the source, and each ends before the next one starts;
* each text is that of the row's statement, from its keyword to the end of its last token, and if
  the statement uses no name, assembling the text alone gives just the row's bytes. -/
theorem rows_agree {source : String} {p : Program} (h : assemble source = .ok p) :
    Consecutive p ∧
      Instruction.listing p.bytes = p.rows.map (fun row => (row.offset, row.instruction)) ∧
      Instruction.encodeAll ((Instruction.listing p.bytes).map Prod.snd) = p.bytes ∧
      (∃ ss, parse source = .ok ss ∧ p.rows.map (fun row => (row.position, row.length)) =
        (ss.filter (fun s => 0 < s.action.width)).map (fun s => (s.position, s.length))) ∧
      p.rows.Pairwise (fun a b => a.position + a.length ≤ b.position) ∧
      ∀ row ∈ p.rows, 0 < row.length ∧ row.position + row.length ≤ source.utf8ByteSize ∧
        ∃ text parts, SpanOf source row text parts ∧
          ((∀ t ∈ parts, t.lexeme.name? = none) →
            ∃ alone, assemble (String.ofList text) = .ok alone ∧
              alone.rows = [⟨0, row.instruction, 0, row.length⟩] ∧
              alone.bytes = row.instruction.encode) := by
  obtain ⟨ss, hparse, hlink⟩ := bind_eq_ok_iff.mp h
  have hlinked := link_spec ss
  rw [hlink] at hlinked
  cases hlinked with
  | program _ _ hrows =>
    have hcanonical := (tiled_of_compiled (registers_of_parse hparse) hrows).canonical
    have hlisting : Instruction.listing p.bytes =
        p.rows.map (fun row => (row.offset, row.instruction)) :=
      listingFrom_of_compiled hrows hcanonical
    obtain ⟨ts, hts, hgrouped⟩ := parse_eq_ok_iff.mp hparse
    obtain ⟨hstatements, hordered⟩ := hgrouped.ordered (inOrder_of_tokens hts)
    refine ⟨consecutive_of_compiled hrows, hlisting, ?_, ⟨ss, hparse, spans_of_compiled hrows⟩,
      ordered_of_compiled hrows hordered, ?_⟩
    · rw [hlisting, List.map_map, Instruction.encodeAll, List.flatMap_map]
      rfl
    · intro row hrow
      obtain ⟨text, parts, hspan⟩ := exists_spanOf hparse hrows hrow
      obtain ⟨before, s, after, hss, -, -, -, hlength⟩ := statement_of_row hrows hrow
      obtain ⟨front, back, hsource, hfront⟩ := hspan.place
      refine ⟨?_, ?_, text, parts, hspan, ?_⟩
      · rw [hlength]
        exact (hstatements s (by rw [hss]; simp)).1
      · rw [← utf8Length_toList, hsource, utf8Length_append, utf8Length_append, hfront,
          hspan.length]
        exact Nat.le_add_right _ _
      · intro hnames
        exact ⟨_, assemble_of_spanOf hspan hnames, rfl, List.append_nil _⟩

/-- A source with a directive, a comment inside a statement and a name. -/
theorem rows_agree_of_comment :
    let source := "#name x i7\npush // five\n  5 pop x"
    let push : Row := ⟨0, .pushInt 5, 11, 16⟩
    let pop : Row := ⟨5, .popReg 7, 28, 5⟩
    assemble source = .ok ⟨[push, pop]⟩ ∧
      Instruction.listing [2, 0, 0, 0, 5, 3, 7] = [(0, .pushInt 5), (5, .popReg 7)] ∧
      ∃ text parts, SpanOf source push text parts := by
  intro source push pop
  have hassemble : assemble source = .ok ⟨[push, pop]⟩ :=
    toOption_eq_some_iff.mp (by decide +kernel)
  obtain ⟨-, hlisting, -, -, -, hrows⟩ := rows_agree hassemble
  obtain ⟨-, -, text, parts, hspan, -⟩ := hrows push List.mem_cons_self
  exact ⟨hassemble, hlisting, text, parts, hspan⟩

end Assembly

end Ledboard
