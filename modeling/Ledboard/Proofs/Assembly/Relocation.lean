/-
# Statements that stand somewhere else

Positions are kept for messages and for the source map, and nothing is decided by them.  So when the
texts of some tokens stand somewhere else (`Relocation`), the same code is assembled from them, and
each position is the one where its text stands now; or they are refused for the same reason, at the
place where it shows now.

* **Statements** (`statements_token`).  The same statements are found, if no token is turned around
  (`Keeps`): the text of a statement runs from the start of one token to the end of another.
* **Programs** (`link_statement`, `assemble_token`).  The same program is linked from them, wherever
  they stand.
-/
import Ledboard.Proofs.Assembly.Grammar

namespace Ledboard.Assembly

/-- Where texts stand now, by where they stood: what starts at a position, and what ends at one. -/
structure Relocation where
  start : Nat → Nat
  stop : Nat → Nat

namespace Relocation

variable (r : Relocation)

/-! ## 1. What is moved -/

/-- How long a text is now. -/
def extent (position length : Nat) : Nat := r.stop (position + length) - r.start position

/-- A token where it stands now. -/
def token (t : Token) : Token := ⟨t.lexeme, r.start t.position, r.extent t.position t.length⟩

/-- A statement where it stands now. -/
def statement (s : Statement) : Statement :=
  ⟨s.action, r.start s.position, r.extent s.position s.length, r.start s.operandPosition⟩

/-- Placed code, with its statement where it stands now. -/
def placed (p : Placed) : Placed := ⟨r.statement p.statement, p.offset, p.code⟩

/-- A layout, with its statements where they stand now. -/
def layout (l : Layout) : Layout := ⟨l.placed.map r.placed, l.locations, l.size⟩

/-- A row that points where its statement stands now. -/
def row (row : Row) : Row :=
  ⟨row.offset, row.instruction, r.start row.position, r.extent row.position row.length⟩

/-- A program whose rows point where their statements stand now. -/
def program (p : Program) : Program := ⟨p.rows.map r.row⟩

/-- A refusal for the same reason, which shows where its cause stands now. -/
def error : AssemblyError → AssemblyError
  | .unexpectedSymbol p => .unexpectedSymbol (r.start p)
  | .unexpectedToken p found expected => .unexpectedToken (r.start p) found expected
  | .numberOutOfRange p text => .numberOutOfRange (r.start p) text
  | .registerOutOfRange p text => .registerOutOfRange (r.start p) text
  | .undefinedName p name => .undefinedName (r.start p) name
  | .undefinedLocation p name => .undefinedLocation (r.start p) name
  | .duplicateLocation p name => .duplicateLocation (r.start p) name
  | .jumpOutOfRange p name displacement => .jumpOutOfRange (r.start p) name displacement

/-- An outcome, with what is made or refused where it stands now. -/
def outcome {α : Type} (move : α → α) : Except AssemblyError α → Except AssemblyError α
  | .ok a => .ok (move a)
  | .error e => .error (r.error e)

/-- Parts of a computation that are moved one by one are moved together. -/
theorem outcome_bind {α β : Type} {move : α → α} {move' : β → β} {x : Except AssemblyError α}
    {f g : α → Except AssemblyError β} (h : ∀ a, g (move a) = r.outcome move' (f a)) :
    (r.outcome move x >>= g) = r.outcome move' (x >>= f) := by
  cases x with
  | error e => rfl
  | ok a => exact h a

/-- A program has the same instructions wherever its rows point. -/
theorem instructions_program (p : Program) : (r.program p).instructions = p.instructions := by
  rw [Program.instructions, program, List.map_map]
  rfl

/-- And so it has the same bytes. -/
theorem bytes_program (p : Program) : (r.program p).bytes = p.bytes := by
  rw [Program.bytes, program, List.flatMap_map]
  rfl

/-! ## 2. Statements -/

/-- A token ends behind its start, also where it stands now. -/
def Keeps (t : Token) : Prop := r.start t.position ≤ r.stop t.ending

variable {r}

theorem ending_token {t : Token} (h : r.Keeps t) : (r.token t).ending = r.stop t.ending :=
  Nat.add_sub_cancel' h

/-- **The text of a statement starts and ends with its tokens.** -/
theorem statement_between {head last : Token} (action : Action) (h : r.Keeps last)
    (hle : head.position ≤ last.ending) :
    Statement.between (r.token head) (r.token last) action =
      r.statement (.between head last action) := by
  have hending : head.position + (last.ending - head.position) = last.ending :=
    Nat.add_sub_cancel' hle
  simp only [Statement.between, statement, extent, ending_token h, hending]
  rfl

/-- A token ends behind the start of each token in front of it. -/
theorem le_ending_of_ordered {a b : Token} (h : a.ending ≤ b.position) : a.position ≤ b.ending := by
  simp only [Token.ending] at h ⊢
  omega

variable (ending : Nat) {ts : List Token}

/-- **The same statements are found behind one another.** -/
theorem statementsFrom_token (done : Array Statement) (hkeeps : ∀ t ∈ ts, r.Keeps t)
    (hordered : ts.Pairwise (fun a b => a.ending ≤ b.position)) :
    statementsFrom (r.start ending) (done.map r.statement) (ts.map r.token) =
      r.outcome (Array.map r.statement) (statementsFrom ending done ts) := by
  have hlexeme : ∀ t : Token, (r.token t).lexeme = t.lexeme := fun _ => rfl
  fun_induction statementsFrom ending done ts with
  | case1 => rfl
  | case3 done head rest i hform ih =>
    have hsame := statement_between (.emit i) (hkeeps head (by simp)) (Nat.le_add_right _ _)
    rw [List.map_cons, statementsFrom.eq_def]
    simp only [hlexeme, hform, hsame, ← Array.map_push]
    exact ih (fun t ht => hkeeps t (by simp [ht])) hordered.of_cons
  | case6 done head expected read hform operand rest action hread ih =>
    obtain ⟨hhead, hrest⟩ := List.pairwise_cons.mp hordered
    have hsame := statement_between action (hkeeps operand (by simp))
      (le_ending_of_ordered (hhead operand (by simp)))
    simp only [List.map_cons, statementsFrom, hlexeme, hform, hread, hsame, ← Array.map_push]
    exact ih (fun t ht => hkeeps t (by simp [ht])) hrest.of_cons
  | case11 done head hform name text hname register rest number hnumber action ih =>
    obtain ⟨hhead, hrest⟩ := List.pairwise_cons.mp hordered
    have hsame := statement_between action (hkeeps register (by simp))
      (le_ending_of_ordered (hhead register (by simp)))
    simp only [List.map_cons, statementsFrom, hlexeme, hform, hname, hnumber]
    rw [hsame, ← Array.map_push]
    exact ih (fun t ht => hkeeps t (by simp [ht])) hrest.of_cons.of_cons
  | _ =>
    -- The token that is refused is the same one, or there is none in both cases.
    rw [List.map_cons, statementsFrom.eq_def]
    simp only [List.map_cons, List.map_nil, *]
    rfl

/-- **The same statements are found**, each where its tokens stand now. -/
theorem statements_token (hkeeps : ∀ t ∈ ts, r.Keeps t)
    (hordered : ts.Pairwise (fun a b => a.ending ≤ b.position)) :
    statements (r.start ending) (ts.map r.token) =
      r.outcome (List.map r.statement) (statements ending ts) := by
  have hsame := statementsFrom_token ending #[] hkeeps hordered
  rw [Array.map_empty] at hsame
  rw [statements, statements, hsame]
  cases statementsFrom ending #[] ts with
  | error e => rfl
  | ok found => exact congrArg Except.ok (Array.toList_map ..)

/-! ## 3. Layouts -/

/-- The names of registers are given by what statements ask for. -/
theorem aliases_statement (ss : List Statement) : aliases (ss.map r.statement) = aliases ss := by
  rw [aliases, List.foldl_map]
  rfl

variable {names : List (String × UInt8)} {locations : Locations}

theorem emit_statement (l : Layout) (s : Statement) (code : Code) :
    (r.layout l).emit (r.statement s) code = r.layout (l.emit s code) := by
  simp only [layout, Layout.emit, Array.map_push]
  rfl

theorem registerOf_start (position : Nat) (ref : RegisterRef) :
    registerOf names (r.start position) ref = r.outcome id (registerOf names position ref) := by
  cases ref with
  | number number => rfl
  | name name =>
    simp only [registerOf]
    cases names.lookup name <;> rfl

/-- Code that refers to a register. -/
theorem map_registerOf (l : Layout) (s : Statement) (ref : RegisterRef) (code : UInt8 → Code) :
    (registerOf names (r.statement s).operandPosition ref).map
        (fun n => (r.layout l).emit (r.statement s) (code n)) =
      r.outcome r.layout
        ((registerOf names s.operandPosition ref).map (fun n => l.emit s (code n))) := by
  have hsame : registerOf names (r.statement s).operandPosition ref = _ :=
    registerOf_start s.operandPosition ref
  rw [hsame]
  cases registerOf names s.operandPosition ref with
  | error e => rfl
  | ok n => exact congrArg Except.ok (emit_statement l s _)

/-- **A statement is laid out the same wherever it stands.** -/
theorem add_statement (l : Layout) (s : Statement) :
    (r.layout l).add names (r.statement s) = r.outcome r.layout (l.add names s) := by
  obtain ⟨action, position, length, operandPosition⟩ := s
  cases action with
  | emit i => exact congrArg Except.ok (emit_statement l _ _)
  | push ref => exact map_registerOf l _ ref _
  | pop ref => exact map_registerOf l _ ref _
  | jump target => exact congrArg Except.ok (emit_statement l _ _)
  | nameRegister name register => rfl
  | here name =>
    simp only [Layout.add, statement, layout]
    cases l.locations.lookup name <;> rfl

theorem addAll_statement (l : Layout) (ss : List Statement) :
    (r.layout l).addAll names (ss.map r.statement) = r.outcome r.layout (l.addAll names ss) := by
  induction ss generalizing l with
  | nil => rfl
  | cons s rest ih =>
    rw [List.map_cons, Layout.addAll, Layout.addAll, add_statement]
    cases l.add names s with
    | error e => rfl
    | ok l' => exact ih l'

/-! ## 4. Jumps -/

/-- **A jump reaches its target wherever its statement stands.** -/
theorem settle_placed (p : Placed) :
    settle locations (r.placed p) = r.outcome id (settle locations p) := by
  obtain ⟨s, offset, code⟩ := p
  cases code with
  | ready i => rfl
  | jump target =>
    change settle locations ⟨r.statement s, offset, .jump target⟩ = _
    simp only [settle]
    cases locations.lookup target with
    | none => rfl
    | some found =>
      by_cases hreaches : reaches (found - offset) = true
      · simp only [hreaches]
        rfl
      · simp only [hreaches]
        rfl

theorem settleAll_placed (done : Array Row) (ps : List Placed) :
    settleAll locations (done.map r.row) (ps.map r.placed) =
      r.outcome (Array.map r.row) (settleAll locations done ps) := by
  induction ps generalizing done with
  | nil => rfl
  | cons p rest ih =>
    rw [List.map_cons, settleAll, settleAll, settle_placed]
    cases settle locations p with
    | error e => rfl
    | ok i =>
      have hpush := ih (done.push ⟨p.offset, i, p.statement.position, p.statement.length⟩)
      rw [Array.map_push] at hpush
      exact hpush

/-! ## 5. Programs -/

/-- **The same program is linked wherever the statements stand.** -/
theorem link_statement (ss : List Statement) :
    link (ss.map r.statement) = r.outcome r.program (link ss) := by
  have hempty : r.layout .empty = .empty := by simp [layout, Layout.empty]
  have hlayout : (r.layout .empty).addAll (aliases ss) (ss.map r.statement) = _ :=
    addAll_statement .empty ss
  rw [hempty] at hlayout
  unfold link
  rw [aliases_statement, hlayout]
  refine r.outcome_bind (fun l => ?_)
  have hrows : settleAll l.locations (#[].map r.row) (l.placed.toList.map r.placed) = _ :=
    settleAll_placed #[] l.placed.toList
  rw [Array.map_empty, ← Array.toList_map] at hrows
  change settleAll l.locations #[] (l.placed.map r.placed).toList >>= _ = _
  rw [hrows]
  refine r.outcome_bind (fun rows => ?_)
  exact congrArg (fun rows => Except.ok (Program.mk rows)) (Array.toList_map ..)

/-- **The same program is assembled from the same tokens**, wherever they stand. -/
theorem assemble_token {source source' : String} (hts : tokens source = .ok ts)
    (hts' : tokens source' = .ok (ts.map r.token)) (hkeeps : ∀ t ∈ ts, r.Keeps t)
    (hending : source'.utf8ByteSize = r.start source.utf8ByteSize) :
    assemble source' = r.outcome r.program (assemble source) := by
  have hparse : parse source' = r.outcome (List.map r.statement) (parse source) := by
    rw [parse, parse, hts, hts', hending]
    exact statements_token _ hkeeps (tokens_eq_ok_iff.mp hts).ordered
  rw [assemble, assemble, hparse]
  exact r.outcome_bind link_statement

end Relocation

end Ledboard.Assembly
