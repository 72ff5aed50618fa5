/-
# White space and comments between tokens

How a source is laid out makes no difference (`gaps_make_no_difference`).  White space and comments
may be put wherever a token starts or ends, also between two tokens that stand side by side, and the
source is assembled into the same program, or refused for the same reason.

* **Between tokens** (`Scanned.covers`).  Each byte of a source belongs to a token, to white space
  or to a comment.
* **Gaps** (`Gap.scanned`).  White space and whole comments are passed over.
* **Insertion** (`Scanned.insert`).  A gap starts with a character that no lexeme goes on with
  (`Lexes.insert`), so the token in front of it is not made longer, and the one behind it starts as
  before.  In a comment that nothing ends, a gap ends it or is more of it (`Gap.in_comment`).

The tokens are then the same ones, each where its text stands now (`Relocation.insertion`), and
positions decide nothing (`Relocation.link_statement`).
-/
import Ledboard.Proofs.Assembly.Relocation
import Ledboard.Proofs.Assembly.Texts

namespace Ledboard.Assembly

variable {position p : Nat} {c : Char} {cs front gap back : List Char} {t : Token}
  {ts : List Token}

/-! ## 1. Between tokens -/

/-- White space or a comment, with what stands behind it.  A comment ends with its line or with the
source. -/
inductive Filler : List Char → List Char → Prop where
  | blank {c : Char} {back : List Char} (hc : Text.isAsciiBlank c = true) : Filler [c] back
  | comment {text back : List Char} (htext : '\n' ∉ text) (hend : ∀ c ∈ back.head?, c = '\n') :
      Filler ('/' :: '/' :: text) back

/-- A byte of some characters, the first of them at a position, is in white space or in a comment
that is apart from all tokens. -/
inductive Between (position : Nat) (cs : List Char) (ts : List Token) (p : Nat) : Prop where
  | mk {front filler back : List Char} (hsplit : cs = front ++ filler ++ back)
      (hfiller : Filler filler back) (hstart : position + utf8Length front ≤ p)
      (hending : p < position + utf8Length front + utf8Length filler)
      (hapart : ∀ t ∈ ts, t.ending ≤ position + utf8Length front ∨
        position + utf8Length front + utf8Length filler ≤ t.position) :
      Between position cs ts p

theorem Between.behind (h : Between (position + utf8Length front) cs ts p) :
    Between position (front ++ cs) ts p := by
  obtain @⟨between, filler, back, rfl, hfiller, hstart, hending, hapart⟩ := h
  have hlength : position + utf8Length (front ++ between) =
      position + utf8Length front + utf8Length between := by
    rw [utf8Length_append, Nat.add_assoc]
  rw [← hlength] at hstart hending hapart
  exact .mk (by simp only [List.append_assoc]) hfiller hstart hending hapart

theorem Between.cons (h : Between position cs ts p) (ht : t.ending ≤ position) :
    Between position cs (t :: ts) p := by
  obtain ⟨hsplit, hfiller, hstart, hending, hapart⟩ := h
  exact .mk hsplit hfiller hstart hending (List.forall_mem_cons.mpr ⟨Or.inl (by omega), hapart⟩)

theorem utf8Length_line (text : List Char) :
    utf8Length ('/' :: '/' :: text) = 2 + utf8Length text := by
  have hlength := utf8Length_comment text []
  rw [List.append_nil] at hlength
  exact hlength

/-- A byte belongs to a token, to white space or to a comment. -/
def Covered (position : Nat) (cs : List Char) (ts : List Token) (p : Nat) : Prop :=
  (∃ t ∈ ts, t.position ≤ p ∧ p < t.ending) ∨ Between position cs ts p

/-- A byte is in the white space or the comment that comes first, or behind it. -/
theorem covered_of_filler {filler : List Char} (hfiller : Filler filler back)
    (h : Scanned (position + utf8Length filler) back ts) (hstart : position ≤ p)
    (hbehind : position + utf8Length filler ≤ p →
      Covered (position + utf8Length filler) back ts p) :
    Covered position (filler ++ back) ts p := by
  by_cases hwhere : p < position + utf8Length filler
  · have hsplit : filler ++ back = [] ++ filler ++ back := rfl
    exact Or.inr (.mk hsplit hfiller hstart hwhere fun t ht => Or.inr (h.bounds t ht).1)
  · exact (hbehind (Nat.le_of_not_lt hwhere)).imp_right Between.behind

/-- **Each byte belongs to a token, to white space or to a comment.** -/
theorem Scanned.covers (h : Scanned position cs ts) (hstart : position ≤ p)
    (hending : p < position + utf8Length cs) : Covered position cs ts p := by
  induction h with
  | nil => exact absurd hending (Nat.not_lt.mpr hstart)
  | @blank position c rest ts hc hrest ih =>
    have hlength : utf8Length [c] = 1 := utf8Length_blank hc []
    rw [utf8Length_blank hc] at hending
    rw [← hlength] at hrest ih
    exact covered_of_filler (.blank hc) hrest hstart fun hle => ih hle (by omega)
  | @comment position text rest ts htext hend hrest ih =>
    rw [utf8Length_comment] at hending
    rw [Nat.add_assoc, ← utf8Length_line] at hrest ih
    have hlength := utf8Length_line text
    exact covered_of_filler (.comment htext hend) hrest hstart fun hle => ih hle (by omega)
  | @token position c tail rest l ts h hrest ih =>
    have hlength : utf8Length (c :: tail) = tail.length + 1 := utf8Length_token h
    rw [← List.cons_append, utf8Length_append, hlength] at hending
    by_cases hwhere : p < position + (tail.length + 1)
    · exact Or.inl ⟨_, List.mem_cons_self, hstart, hwhere⟩
    · rcases ih (Nat.le_of_not_lt hwhere) (by omega) with ⟨t, ht, hcovers⟩ | hbetween
      · exact Or.inl ⟨t, List.mem_cons_of_mem _ ht, hcovers⟩
      · have hbehind := hbetween.cons (t := ⟨l, position, tail.length + 1⟩) (Nat.le_refl _)
        rw [← hlength] at hbehind
        exact Or.inr (hlength ▸ hbehind.behind)

/-! ## 2. Gaps -/

/-- White space and whole comments, in any order. -/
inductive Gap : List Char → Prop where
  | nil : Gap []
  | blank {c : Char} {rest : List Char} (hc : Text.isAsciiBlank c = true) (hrest : Gap rest) :
      Gap (c :: rest)
  | comment {text rest : List Char} (htext : '\n' ∉ text) (hrest : Gap rest) :
      Gap ('/' :: '/' :: (text ++ '\n' :: rest))

/-- A comment is passed over with the end of its line. -/
theorem scannedTo_line {text : List Char} (htext : '\n' ∉ text) (position : Nat) (cs : List Char) :
    ScannedTo position ('/' :: '/' :: (text ++ '\n' :: cs)) [] (position + 2 + utf8Length text + 1)
      cs :=
  .comment htext (by rintro c ⟨⟩; rfl) (.blank rfl (.here _ cs))

/-- **A gap is passed over.** -/
theorem Gap.scannedTo (hgap : Gap gap) (position : Nat) (cs : List Char) :
    ScannedTo position (gap ++ cs) [] (position + utf8Length gap) cs := by
  induction hgap generalizing position with
  | nil => exact .here position cs
  | @blank c rest hc _ ih =>
    rw [utf8Length_blank hc, ← Nat.add_assoc]
    exact .blank hc (ih _)
  | @comment text rest htext _ ih =>
    have hlength : position + utf8Length ('/' :: '/' :: (text ++ '\n' :: rest)) =
        position + 2 + utf8Length text + 1 + utf8Length rest := by
      rw [utf8Length_comment, utf8Length_blank rfl]
      omega
    rw [hlength, List.cons_append, List.cons_append, List.append_assoc]
    exact (scannedTo_line htext position _).trans (ih _)

theorem scanned_of_line {text : List Char} (htext : '\n' ∉ text)
    (h : Scanned (position + 2 + utf8Length text + 1) cs ts) :
    Scanned position ('/' :: '/' :: (text ++ '\n' :: cs)) ts :=
  (scannedTo_line htext position cs).scanned h

theorem Gap.scanned (hgap : Gap gap) (h : Scanned (position + utf8Length gap) cs ts) :
    Scanned position (gap ++ cs) ts :=
  (hgap.scannedTo position cs).scanned h

/-- A gap at the end of a source is passed over. -/
theorem Gap.scanned_alone (hgap : Gap gap) (position : Nat) : Scanned position gap [] := by
  have hscanned := hgap.scanned (.nil (position + utf8Length gap))
  rwa [List.append_nil] at hscanned

/-- **In a comment that nothing ends, a gap ends it or is more of it.** -/
theorem Gap.in_comment (hgap : Gap gap) {text : List Char} (htext : '\n' ∉ text)
    (position : Nat) : Scanned position ('/' :: '/' :: (text ++ gap)) [] := by
  induction hgap generalizing text with
  | nil => exact .comment htext nofun (.nil _)
  | @blank c rest hc hrest ih =>
    by_cases hline : c = '\n'
    · subst hline
      exact scanned_of_line htext (hrest.scanned_alone _)
    · have hall : '\n' ∉ text ++ [c] := by simp [htext, Ne.symm hline]
      have hmore := ih hall
      rwa [List.append_assoc] at hmore
  | @comment more rest hmore hrest ih =>
    have hall : '\n' ∉ text ++ '/' :: '/' :: more := by simp [htext, hmore]
    have hscanned : Scanned position ('/' :: '/' :: (text ++ '/' :: '/' :: more ++ '\n' :: rest)) [] :=
      scanned_of_line hall (hrest.scanned_alone _)
    rwa [List.append_assoc] at hscanned

/-- No word and no number goes on with a gap. -/
theorem Gap.ends (hgap : Gap (c :: gap)) : isWordPart c = false := by
  cases hgap with
  | blank hc => exact not_part_of_blank hc
  | comment => decide

/-! ## 3. Insertion -/

/-- Some bytes are put in at a place.  What starts there stands behind them now, and what ends there
stays. -/
def Relocation.insertion (place count : Nat) : Relocation where
  start p := if p < place then p else p + count
  stop e := if e ≤ place then e else e + count

/-- The places where tokens start or end, and where the source ends. -/
inductive Edge (ts : List Token) (ending : Nat) : Nat → Prop where
  | start {t : Token} (ht : t ∈ ts) : Edge ts ending t.position
  | stop {t : Token} (ht : t ∈ ts) : Edge ts ending t.ending
  | last : Edge ts ending ending

variable {place count : Nat} {l : Lexeme} {more : Nat}

theorem Edge.le (hedge : Edge ts (position + utf8Length cs) place) (h : Scanned position cs ts) :
    position ≤ place := by
  cases hedge with
  | start ht => exact (h.bounds _ ht).1
  | stop ht => exact Nat.le_trans (h.bounds _ ht).1 (Nat.le_add_right _ _)
  | last => exact Nat.le_add_right _ _

/-- A text can be cut where a token starts or ends. -/
theorem Edge.exists_append (hedge : Edge ts (position + utf8Length cs) place)
    (h : Scanned position cs ts) :
    ∃ front back, cs = front ++ back ∧ position + utf8Length front = place := by
  cases hedge with
  | start ht =>
    obtain ⟨before, after, rfl⟩ := List.append_of_mem ht
    obtain ⟨front, c, tail, rest, rfl, hstart, -⟩ := h.behind
    exact ⟨front, c :: (tail ++ rest), rfl, hstart⟩
  | @stop t ht =>
    obtain ⟨before, after, rfl⟩ := List.append_of_mem ht
    obtain ⟨front, c, tail, rest, rfl, hstart, hlength, hlexes, -⟩ := h.behind
    refine ⟨front ++ c :: tail, rest, by simp, ?_⟩
    rw [utf8Length_append, utf8Length_token hlexes, ← hlength, ← Nat.add_assoc, hstart]
    rfl
  | last => exact ⟨cs, [], (List.append_nil cs).symm, rfl⟩

/-- No token starts or ends where a line ends. -/
theorem Edge.lt_of_line (hedge : Edge ts (position + utf8Length ('\n' :: back)) place)
    (h : Scanned position ('\n' :: back) ts) : position < place := by
  cases h with
  | blank hc hrest =>
    rw [utf8Length_blank hc, ← Nat.add_assoc] at hedge
    exact hedge.le hrest
  | token h => exact absurd h.start.1 (by decide)

/-- A place is an edge of the token that comes first, or of the others. -/
theorem Edge.of_cons {ending : Nat} (hedge : Edge (t :: ts) ending place) :
    place = t.position ∨ place = t.ending ∨ Edge ts ending place := by
  cases hedge with
  | start ht =>
    rcases List.mem_cons.mp ht with rfl | ht
    · exact Or.inl rfl
    · exact Or.inr (Or.inr (.start ht))
  | stop ht =>
    rcases List.mem_cons.mp ht with rfl | ht
    · exact Or.inr (Or.inl rfl)
    · exact Or.inr (Or.inr (.stop ht))
  | last => exact Or.inr (Or.inr .last)

/-- What ends at the place or in front of it stays. -/
theorem insertion_of_le (hle : t.ending ≤ place) (hpos : 0 < t.length) :
    (Relocation.insertion place count).token t = t := by
  have hstart : t.position < place := Nat.lt_of_lt_of_le (Nat.lt_add_of_pos_right hpos) hle
  simp only [Token.ending] at hle
  simp only [Relocation.insertion, Relocation.token, Relocation.extent, if_pos hstart, if_pos hle,
    Nat.add_sub_cancel_left]

/-- What starts at the place or behind it is moved. -/
theorem insertion_of_ge (hge : place ≤ t.position) (hpos : 0 < t.length) :
    (Relocation.insertion place count).token t = t.behind count := by
  have hending : ¬ t.position + t.length ≤ place := by omega
  have hlength : t.position + t.length + count - (t.position + count) = t.length := by omega
  simp only [Relocation.insertion, Relocation.token, Relocation.extent, if_neg hending,
    if_neg (Nat.not_lt.mpr hge), hlength, Token.behind, Nat.add_comm count]

/-- A gap put in front of everything. -/
theorem Scanned.insert_front (h : Scanned position cs ts) (hsplit : cs = [] ++ back)
    (hgap : Gap gap) :
    Scanned position (gap ++ back)
      (ts.map (Relocation.insertion position (utf8Length gap)).token) := by
  subst hsplit
  have hsame : ts.map (Relocation.insertion position (utf8Length gap)).token =
      ts.map (Token.behind (utf8Length gap)) := by
    refine List.map_congr_left fun t ht => ?_
    obtain ⟨hstart, hpos, -⟩ := h.bounds t ht
    exact insertion_of_ge hstart hpos
  rw [hsame]
  refine hgap.scanned ?_
  rw [Nat.add_comm]
  exact h.shifted _

/-- **A gap behind a lexeme leaves it as it is.** -/
theorem Lexes.insert (h : Lexes c (front ++ back) l more) (hmore : more ≤ front.length)
    (hgap : Gap gap) : Lexes c (front ++ (gap ++ back)) l more := by
  cases gap with
  | nil => exact h
  | cons d gap =>
    refine (h.of_append hmore).append ?_
    rintro _ ⟨⟩
    exact hgap.ends

variable {first rest : List Char}

/-- Of two ways to cut some characters one cuts farther behind. -/
theorem exists_of_append (hsplit : first ++ rest = front ++ back)
    (hle : utf8Length first ≤ utf8Length front) :
    ∃ mid, front = first ++ mid ∧ rest = mid ++ back := by
  rcases List.append_eq_append_iff.mp hsplit with ⟨mid, rfl, rfl⟩ | ⟨mid, rfl, rfl⟩
  · exact ⟨mid, rfl, rfl⟩
  · rw [utf8Length_append] at hle
    obtain rfl : mid = [] := eq_nil_of_utf8Length (by omega)
    exact ⟨[], by simp, rfl⟩

/-- A place behind the first part of what is scanned is a place in the rest. -/
theorem Edge.split (first : List Char)
    (hedge : Edge ts (position + utf8Length (first ++ rest)) (position + utf8Length front))
    (h : Scanned (position + utf8Length first) rest ts) (hsplit : first ++ rest = front ++ back) :
    ∃ mid, front = first ++ mid ∧ rest = mid ++ back ∧
      Edge ts (position + utf8Length first + utf8Length rest)
        (position + utf8Length first + utf8Length mid) := by
  rw [utf8Length_append, ← Nat.add_assoc] at hedge
  obtain ⟨mid, rfl, rfl⟩ := exists_of_append hsplit (Nat.le_of_add_le_add_left (hedge.le h))
  rw [utf8Length_append first mid, ← Nat.add_assoc] at hedge
  exact ⟨mid, rfl, rfl, hedge⟩

/-- So is a place behind the token that comes first, unless it is where that token ends. -/
theorem Edge.split_token (first : List Char)
    (hedge : Edge (t :: ts) (position + utf8Length (first ++ rest)) (position + utf8Length front))
    (hstart : t.position = position) (hending : t.ending = position + utf8Length first)
    (h : Scanned (position + utf8Length first) rest ts) (hsplit : first ++ rest = front ++ back)
    (hfront : front ≠ []) :
    ∃ mid, front = first ++ mid ∧ rest = mid ++ back ∧
      (mid = [] ∨ Edge ts (position + utf8Length first + utf8Length rest)
        (position + utf8Length first + utf8Length mid)) := by
  rcases hedge.of_cons with hhere | hhere | hedge
  · exact absurd (eq_nil_of_utf8Length (by omega)) hfront
  · obtain ⟨mid, rfl, rfl⟩ := exists_of_append hsplit (by omega)
    rw [utf8Length_append] at hhere
    exact ⟨mid, rfl, rfl, Or.inl (eq_nil_of_utf8Length (by omega))⟩
  · obtain ⟨mid, hmid, hrest, hedge⟩ := hedge.split first h hsplit
    exact ⟨mid, hmid, hrest, Or.inr hedge⟩

/-- Behind the text of a comment a gap is put in where its line has ended, or where the source
ends. -/
theorem scanned_comment {text mid : List Char} {move : Token → Token} (htext : '\n' ∉ text)
    (hend : ∀ c ∈ (mid ++ back).head?, c = '\n') (hrest : Scanned place (mid ++ back) ts)
    (hedge : Edge ts (place + utf8Length (mid ++ back)) (place + utf8Length mid)) (hgap : Gap gap)
    (hinside : Scanned (position + 2 + utf8Length text) (mid ++ (gap ++ back)) (ts.map move)) :
    Scanned position ('/' :: '/' :: (text ++ (mid ++ (gap ++ back)))) (ts.map move) := by
  cases mid with
  | cons d mid => exact .comment htext hend hinside
  | nil =>
    cases back with
    | nil =>
      cases hrest
      simpa using hgap.in_comment htext position
    | cons d back =>
      obtain rfl := hend d rfl
      exact absurd (hedge.lt_of_line hrest) (Nat.lt_irrefl _)

/-- **A gap where a token starts or ends leaves the tokens as they are.** -/
theorem Scanned.insert (h : Scanned position cs ts) (hsplit : cs = front ++ back) (hgap : Gap gap)
    (hplace : front = [] ∨ Edge ts (position + utf8Length cs) (position + utf8Length front)) :
    Scanned position (front ++ (gap ++ back))
      (ts.map (Relocation.insertion (position + utf8Length front) (utf8Length gap)).token) := by
  -- The gap is put in front of what is scanned, or at an edge in the rest.
  induction h generalizing front with
  | nil position =>
    obtain ⟨rfl, rfl⟩ := List.append_eq_nil_iff.mp hsplit.symm
    simpa using hgap.scanned_alone position
  | @blank position c rest ts hc hrest ih =>
    rcases hplace with rfl | hedge
    · exact (Scanned.blank hc hrest).insert_front hsplit hgap
    have hlength : utf8Length [c] = 1 := utf8Length_blank hc []
    rw [← hlength] at hrest ih
    obtain ⟨mid, rfl, rfl, hmid⟩ := hedge.split [c] hrest hsplit
    have hinside := ih rfl (Or.inr hmid)
    rw [Nat.add_assoc, ← utf8Length_append, hlength] at hinside
    exact .blank hc hinside
  | @comment position text rest ts htext hend hrest ih =>
    rcases hplace with rfl | hedge
    · exact (Scanned.comment htext hend hrest).insert_front hsplit hgap
    have hlength : position + 2 + utf8Length text = position + utf8Length ('/' :: '/' :: text) := by
      rw [utf8Length_line, Nat.add_assoc]
    rw [hlength] at hrest ih
    obtain ⟨mid, rfl, rfl, hmid⟩ := hedge.split ('/' :: '/' :: text) hrest hsplit
    have hinside := ih rfl (Or.inr hmid)
    rw [Nat.add_assoc, ← utf8Length_append, ← hlength] at hinside
    rw [List.append_assoc]
    exact scanned_comment htext hend hrest hmid hgap hinside
  | @token position c tail rest l ts h hrest ih =>
    by_cases hfront : front = []
    · subst hfront
      exact (Scanned.token h hrest).insert_front hsplit hgap
    have hlength : utf8Length (c :: tail) = tail.length + 1 := utf8Length_token h
    rw [← hlength] at hrest ih
    obtain ⟨mid, rfl, rfl, hmid⟩ := (hplace.resolve_left hfront).split_token
      (c :: tail) rfl (congrArg _ hlength.symm) hrest hsplit hfront
    have hinside := ih rfl hmid
    rw [Nat.add_assoc, ← utf8Length_append, hlength] at hinside
    have hlexes : Lexes c (tail ++ (mid ++ (gap ++ back))) l tail.length := by
      rw [← List.append_assoc] at h ⊢
      exact h.insert (by simp) hgap
    have hsame : (Relocation.insertion (position + utf8Length (c :: tail ++ mid))
        (utf8Length gap)).token ⟨l, position, tail.length + 1⟩ =
          ⟨l, position, tail.length + 1⟩ := by
      refine insertion_of_le ?_ (Nat.succ_pos _)
      rw [utf8Length_append, hlength, ← Nat.add_assoc]
      exact Nat.le_add_right _ _
    rw [List.map_cons, hsame, List.append_assoc]
    exact .token hlexes hinside

/-! ## 4. The whole -/

/-- Two outcomes that differ only in where texts stand: the same bytes, with rows that are the same
but for the spans of their statements; or a refusal for the same reason. -/
inductive Relocated (r : Relocation) :
    Except AssemblyError Program → Except AssemblyError Program → Prop where
  | program {p p' : Program} (hbytes : p'.bytes = p.bytes) (hrows : p'.rows = p.rows.map r.row) :
      Relocated r (.ok p) (.ok p')
  | refusal (e : AssemblyError) : Relocated r (.error e) (.error (r.error e))

theorem relocated_outcome (r : Relocation) (x : Except AssemblyError Program) :
    Relocated r x (r.outcome r.program x) := by
  cases x with
  | error e => exact .refusal e
  | ok p => exact .program (r.bytes_program p) rfl

theorem keeps_insertion (place count : Nat) (hpos : 0 < t.length) :
    (Relocation.insertion place count).Keeps t := by
  simp only [Relocation.Keeps, Relocation.insertion, Token.ending]
  split <;> split <;> omega

/-- A source with a gap where a token starts or ends is cut into the same tokens. -/
theorem tokens_insert {source : String} (h : tokens source = .ok ts)
    (hsplit : source.toList = front ++ back) (hgap : Gap gap)
    (hedge : Edge ts source.utf8ByteSize (utf8Length front)) :
    tokens (String.ofList (front ++ gap ++ back)) =
      .ok (ts.map (Relocation.insertion (utf8Length front) (utf8Length gap)).token) := by
  have hplace : Edge ts (0 + utf8Length source.toList) (0 + utf8Length front) := by
    rwa [utf8Length_toList, Nat.zero_add, Nat.zero_add]
  have hscanned := (tokens_eq_ok_iff.mp h).insert hsplit hgap (Or.inr hplace)
  rw [Nat.zero_add] at hscanned
  rwa [tokens_eq_ok_iff, String.toList_ofList, List.append_assoc]

/-- **White space and comments between tokens make no difference.**  For every source that is cut
into tokens:

* the tokens are not empty, lie in the source, and each ends before the next one starts;
* each byte outside them is white space, or is in a comment that ends with its line or the source;
* the source can be cut where a token starts or ends, and at its end;
* with a gap put in there, it is assembled into the same bytes from the same rows, each pointing at
  its statement where it stands now, or is refused for the same reason. -/
theorem gaps_make_no_difference {source : String} (h : tokens source = .ok ts) :
    (∀ t ∈ ts, 0 < t.length ∧ t.ending ≤ source.utf8ByteSize) ∧
      ts.Pairwise (fun a b => a.ending ≤ b.position) ∧
      (∀ p < source.utf8ByteSize, Covered 0 source.toList ts p) ∧
      (∀ place, Edge ts source.utf8ByteSize place →
        ∃ front back, source.toList = front ++ back ∧ utf8Length front = place) ∧
      ∀ front gap back, source.toList = front ++ back → Gap gap →
        Edge ts source.utf8ByteSize (utf8Length front) →
        Relocated (.insertion (utf8Length front) (utf8Length gap)) (assemble source)
          (assemble (String.ofList (front ++ gap ++ back))) := by
  have hscanned := tokens_eq_ok_iff.mp h
  have hsize : 0 + utf8Length source.toList = source.utf8ByteSize := by
    rw [utf8Length_toList, Nat.zero_add]
  refine ⟨fun t ht => ?_, hscanned.ordered, fun p hp => ?_, fun place hedge => ?_, ?_⟩
  · obtain ⟨-, hpos, hending⟩ := hscanned.bounds t ht
    exact ⟨hpos, hsize ▸ hending⟩
  · exact hscanned.covers (Nat.zero_le p) (hsize ▸ hp)
  · rw [← hsize] at hedge
    obtain ⟨front, back, hsplit, hplace⟩ := hedge.exists_append hscanned
    exact ⟨front, back, hsplit, (Nat.zero_add _).symm.trans hplace⟩
  · intro front gap back hsplit hgap hedge
    have hending : (String.ofList (front ++ gap ++ back)).utf8ByteSize =
        (Relocation.insertion (utf8Length front) (utf8Length gap)).start source.utf8ByteSize := by
      rw [← utf8Length_toList, String.toList_ofList, ← utf8Length_toList, hsplit]
      simp only [utf8Length_append, Relocation.insertion]
      split <;> omega
    rw [Relocation.assemble_token h (tokens_insert h hsplit hgap hedge)
      (fun t ht => keeps_insertion _ _ (hscanned.bounds t ht).2.1) hending]
    exact relocated_outcome _ _

/-- A comment between two tokens that stand side by side. -/
theorem gaps_make_no_difference_of_comment :
    let ts : List Token := [⟨.keyword .push, 0, 4⟩, ⟨.number 5, 5, 1⟩, ⟨.keyword .pop, 6, 3⟩,
      ⟨.register 7, 10, 2⟩]
    let changed := String.ofList ("push 5".toList ++ "// é\n".toList ++ "pop i7".toList)
    tokens "push 5pop i7" = .ok ts ∧ Edge ts 12 6 ∧ Gap "// é\n".toList ∧
      Relocated (.insertion 6 6) (assemble "push 5pop i7") (assemble changed) ∧
      assemble changed = .ok ⟨[⟨0, .pushInt 5, 0, 6⟩, ⟨5, .popReg 7, 12, 6⟩]⟩ := by
  intro ts changed
  have htokens : tokens "push 5pop i7" = .ok ts := toOption_eq_some_iff.mp (by decide +kernel)
  have hedge : Edge ts 12 6 := .stop (t := ⟨.number 5, 5, 1⟩) (by decide)
  have hgap : Gap "// é\n".toList := @Gap.comment " é".toList [] (by decide) .nil
  obtain ⟨-, -, -, -, hinsert⟩ := gaps_make_no_difference htokens
  exact ⟨htokens, hedge, hgap, hinsert "push 5".toList _ "pop i7".toList (by decide) hgap hedge,
    toOption_eq_some_iff.mp (by decide +kernel)⟩

end Ledboard.Assembly
