/-
# What a source is cut into

A source that is cut into tokens is white space, comments and lexemes, one behind another
(`Scanned`), and the tokens are exactly the lexemes with their places (`tokens_eq_ok_iff`).

* **Order** (`Scanned.ordered`).  Tokens are not empty, lie in the source, and each ends before the
  next one starts.
* **Parts** (`Scanned.part`).  The text from the start of a token to the end of a later one is cut
  into the same tokens when it stands alone.  It does not matter what stands before it, because a
  scan remembers nothing (`Scanned.behind`, `Scanned.moved`, `Scanned.shifted`); nor what stands
  behind it, because the text of a token does not change when it is cut off there (`Scanned.cut`).
-/
import Ledboard.Proofs.Assembly.Lexemes

namespace Ledboard.Assembly

/-! ## 1. Scans -/

/-- Some characters, the first of them at a position, are white space, comments and the lexemes of
some tokens. -/
inductive Scanned : Nat → List Char → List Token → Prop where
  | nil (position : Nat) : Scanned position [] []
  | blank {position : Nat} {c : Char} {rest : List Char} {ts : List Token}
      (hc : Text.isAsciiBlank c = true) (hrest : Scanned (position + 1) rest ts) :
      Scanned position (c :: rest) ts
  /-- a comment ends with its line or with the source -/
  | comment {position : Nat} {text rest : List Char} {ts : List Token} (htext : '\n' ∉ text)
      (hend : ∀ c ∈ rest.head?, c = '\n')
      (hrest : Scanned (position + 2 + utf8Length text) rest ts) :
      Scanned position ('/' :: '/' :: (text ++ rest)) ts
  | token {position : Nat} {c : Char} {tail rest : List Char} {l : Lexeme} {ts : List Token}
      (h : Lexes c (tail ++ rest) l tail.length)
      (hrest : Scanned (position + (tail.length + 1)) rest ts) :
      Scanned position (c :: (tail ++ rest)) (⟨l, position, tail.length + 1⟩ :: ts)

/-- Some characters, the first of them at a position, are passed up to a place: before it stand white
space, comments and the lexemes of some tokens. -/
inductive ScannedTo : Nat → List Char → List Token → Nat → List Char → Prop where
  | here (position : Nat) (cs : List Char) : ScannedTo position cs [] position cs
  | blank {position place : Nat} {c : Char} {rest back : List Char} {ts : List Token}
      (hc : Text.isAsciiBlank c = true) (hrest : ScannedTo (position + 1) rest ts place back) :
      ScannedTo position (c :: rest) ts place back
  | comment {position place : Nat} {text rest back : List Char} {ts : List Token}
      (htext : '\n' ∉ text) (hend : ∀ c ∈ rest.head?, c = '\n')
      (hrest : ScannedTo (position + 2 + utf8Length text) rest ts place back) :
      ScannedTo position ('/' :: '/' :: (text ++ rest)) ts place back
  | token {position place : Nat} {c : Char} {tail rest back : List Char} {l : Lexeme}
      {ts : List Token} (h : Lexes c (tail ++ rest) l tail.length)
      (hrest : ScannedTo (position + (tail.length + 1)) rest ts place back) :
      ScannedTo position (c :: (tail ++ rest)) (⟨l, position, tail.length + 1⟩ :: ts) place back

variable {position : Nat} {cs : List Char} {ts : List Token} {t : Token}

/-- What is passed up to the end is all that there is. -/
theorem scanned_iff_scannedTo :
    Scanned position cs ts ↔ ∃ ending, ScannedTo position cs ts ending [] := by
  constructor
  · intro h
    induction h with
    | nil position => exact ⟨position, .here position []⟩
    | blank hc _ ih => exact ih.imp fun _ => .blank hc
    | comment htext hend _ ih => exact ih.imp fun _ => .comment htext hend
    | token h _ ih => exact ih.imp fun _ => .token h
  · rintro ⟨ending, h⟩
    generalize hback : ([] : List Char) = back at h
    induction h with
    | here position =>
      subst hback
      exact .nil position
    | blank hc _ ih => exact .blank hc (ih hback)
    | comment htext hend _ ih => exact .comment htext hend (ih hback)
    | token h _ ih => exact .token h (ih hback)

/-- What is passed from the place on that was reached is passed in all. -/
theorem ScannedTo.trans {place last : Nat} {mid back : List Char} {more : List Token}
    (h : ScannedTo position cs ts place mid) (hmore : ScannedTo place mid more last back) :
    ScannedTo position cs (ts ++ more) last back := by
  induction h with
  | here => exact hmore
  | blank hc _ ih => exact .blank hc (ih hmore)
  | comment htext hend _ ih => exact .comment htext hend (ih hmore)
  | token h _ ih => exact .token h (ih hmore)

theorem ScannedTo.scanned {place : Nat} {mid : List Char} {more : List Token}
    (h : ScannedTo position cs ts place mid) (hmore : Scanned place mid more) :
    Scanned position cs (ts ++ more) := by
  obtain ⟨ending, hmore⟩ := scanned_iff_scannedTo.mp hmore
  exact scanned_iff_scannedTo.mpr ⟨ending, h.trans hmore⟩

/-- The rest of a line is the characters up to its end. -/
theorem takeWhile_line_iff {text rest back : List Char} (h : rest = text ++ back) :
    rest.takeWhile (· != '\n') = text ↔ '\n' ∉ text ∧ ∀ c ∈ back.head?, c = '\n' := by
  subst h
  constructor
  · intro htext
    constructor
    · intro hmem
      rw [← htext] at hmem
      exact absurd (List.mem_takeWhile_imp hmem) (by decide)
    · intro c hc
      obtain ⟨back, rfl⟩ := List.head?_eq_some_iff.mp hc
      have hpos : ∀ a ∈ text, (a != '\n') = true := by
        intro a ha
        rw [← htext] at ha
        exact List.mem_takeWhile_imp (p := (· != '\n')) ha
      rw [List.takeWhile_append_of_pos hpos, List.append_right_eq_self] at htext
      by_cases hline : c = '\n'
      · exact hline
      · rw [List.takeWhile_cons, if_pos (bne_iff_ne.mpr hline)] at htext
        exact absurd htext (List.cons_ne_nil _ _)
  · rintro ⟨htext, hback⟩
    have hpos : ∀ a ∈ text, (a != '\n') = true := by
      intro a ha
      rw [bne_iff_ne]
      rintro rfl
      exact htext ha
    rw [List.takeWhile_append_of_pos hpos, List.append_right_eq_self]
    cases back with
    | nil => rfl
    | cons c back =>
      rw [hback c rfl]
      exact List.takeWhile_cons_of_neg (by decide)

/-- The comment that a source goes on with, from its second slash on. -/
theorem length_comment (position : Nat) (text : List Char) :
    position + 1 + utf8Length ('/' :: text) = position + 2 + utf8Length text := by
  rw [utf8Length, List.foldr_cons, ← utf8Length,
    utf8Size_of_isAscii (by decide : IsAscii '/')]
  omega

/-- A source that goes on with two slashes goes on with a comment. -/
theorem exists_comment {rest : List Char} (hhead : rest.head? = some '/') :
    ∃ text back, rest = '/' :: (text ++ back) ∧ rest.takeWhile (· != '\n') = '/' :: text ∧
      '\n' ∉ text ∧ ∀ c ∈ back.head?, c = '\n' := by
  obtain ⟨rest, rfl⟩ := List.head?_eq_some_iff.mp hhead
  have hsplit := (List.takeWhile_append_dropWhile (p := (· != '\n')) (l := rest)).symm
  obtain ⟨htext, hback⟩ := (takeWhile_line_iff hsplit).mp rfl
  exact ⟨_, _, by rw [← hsplit], List.takeWhile_cons_of_pos (by decide), htext, hback⟩

/-- What stands at a place is neither white space nor a comment, and is refused as a lexeme. -/
structure Refused (place : Nat) (c : Char) (rest : List Char) (e : AssemblyError) : Prop where
  blank : Text.isAsciiBlank c = false
  comment : ¬ (c = '/' ∧ rest.head? = some '/')
  lexeme : lexemeAt place c rest = .error e

/-- What a scan comes to: the tokens behind those already cut, or the refusal of what stands where
it stopped. -/
inductive Stopped (done : Array Token) (position : Nat) (cs : List Char) :
    Except AssemblyError (Array Token) → Prop where
  | whole {found : Array Token} {ts : List Token} {ending : Nat}
      (h : ScannedTo position cs ts ending []) (hfound : found.toList = done.toList ++ ts) :
      Stopped done position cs (.ok found)
  | refused {ts : List Token} {place : Nat} {c : Char} {rest : List Char} {e : AssemblyError}
      (h : ScannedTo position cs ts place (c :: rest)) (hrefused : Refused place c rest e) :
      Stopped done position cs (.error e)

/-- A scan stops where the scan of what is left stops. -/
theorem Stopped.behind {done more : Array Token} {next : Nat} {rest : List Char}
    {first : List Token} {outcome : Except AssemblyError (Array Token)}
    (h : Stopped more next rest outcome) (hmore : more.toList = done.toList ++ first)
    (hfirst : ∀ {ts : List Token} {place : Nat} {back : List Char},
      ScannedTo next rest ts place back → ScannedTo position cs (first ++ ts) place back) :
    Stopped done position cs outcome := by
  cases h with
  | whole h hfound => exact .whole (hfirst h) (by rw [hfound, hmore, List.append_assoc])
  | refused h hrefused => exact .refused (hfirst h) hrefused

/-- **A scan goes on up to the end or up to something that is refused.** -/
theorem stopped_tokensFrom (done : Array Token) (position : Nat) (cs : List Char) :
    Stopped done position cs (tokensFrom done position cs) := by
  fun_induction tokensFrom done position cs with
  | case1 done position => exact .whole (.here position []) (List.append_nil _).symm
  | case2 done position c rest hc ih =>
    exact ih.behind (List.append_nil _).symm (.blank hc)
  | case3 done position c rest hc hslash comment ih =>
    obtain ⟨rfl, hhead⟩ := hslash
    obtain ⟨text, back, rfl, htake, htext, hback⟩ := exists_comment hhead
    have hcomment : comment = '/' :: text := htake
    rw [hcomment, length_comment, List.length_cons, List.drop_succ_cons, List.drop_left] at ih ⊢
    exact ih.behind (List.append_nil _).symm (.comment htext hback)
  | case4 done position c rest hblank hcomment e hrefused =>
    exact .refused (.here position _) ⟨Bool.eq_false_iff.mpr hblank, hcomment, hrefused⟩
  | case5 done position c rest _ _ l more hlexeme ih =>
    have hlexes := lexemeAt_eq_ok_iff.mp hlexeme
    obtain ⟨tail, back, rfl, rfl, -⟩ := hlexes.exists_tail
    rw [List.drop_left, Nat.add_assoc] at ih ⊢
    exact ih.behind Array.toList_push (.token hlexes)

/-- What can be passed is passed, and the scan goes on behind it. -/
theorem tokensFrom_of_scannedTo {place : Nat} {back : List Char}
    (h : ScannedTo position cs ts place back) (done : Array Token) :
    ∃ found, tokensFrom done position cs = tokensFrom found place back ∧
      found.toList = done.toList ++ ts := by
  induction h generalizing done with
  | here => exact ⟨done, rfl, (List.append_nil _).symm⟩
  | blank hc _ ih =>
    rw [tokensFrom, if_pos hc]
    exact ih done
  | @comment position place text rest back ts htext hend _ ih =>
    have hline := (takeWhile_line_iff rfl).mpr ⟨htext, hend⟩
    have htake : ('/' :: (text ++ rest)).takeWhile (· != '\n') = '/' :: text := by
      rw [List.takeWhile_cons_of_pos (by decide), hline]
    rw [tokensFrom, if_neg (by decide), if_pos ⟨rfl, rfl⟩]
    simp only [htake, length_comment, List.length_cons, List.drop_succ_cons, List.drop_left]
    exact ih done
  | @token position place c tail rest back l ts h _ ih =>
    obtain ⟨hblank, hslash⟩ := h.start
    have hlexeme : lexemeAt position c (tail ++ rest) = .ok (l, tail.length) :=
      lexemeAt_eq_ok_iff.mpr h
    rw [tokensFrom, hblank, if_neg Bool.false_ne_true, if_neg (fun hc => hslash hc.1)]
    simp only [hlexeme, List.drop_left]
    obtain ⟨found, hfound, hlist⟩ := ih (done.push ⟨l, position, tail.length + 1⟩)
    refine ⟨found, hfound, ?_⟩
    rw [hlist, Array.toList_push, List.append_assoc]
    rfl

/-- **A source is cut into tokens exactly if they are what it is made of.** -/
theorem tokens_eq_ok_iff {source : String} :
    tokens source = .ok ts ↔ Scanned 0 source.toList ts := by
  unfold tokens
  rw [map_eq_ok_iff, scanned_iff_scannedTo]
  constructor
  · rintro ⟨found, hfound, rfl⟩
    have hstopped := stopped_tokensFrom #[] 0 source.toList
    rw [hfound] at hstopped
    cases hstopped with
    | whole h hlist =>
      rw [hlist]
      exact ⟨_, h⟩
  · rintro ⟨ending, h⟩
    obtain ⟨found, hfound, hlist⟩ := tokensFrom_of_scannedTo h #[]
    exact ⟨found, hfound.trans (by rw [tokensFrom]), hlist⟩

/-- **A source is refused where something stands that is refused as a lexeme**, if there are only
tokens before it. -/
theorem tokens_eq_error_iff {source : String} {e : AssemblyError} :
    tokens source = .error e ↔
      ∃ ts place c rest, ScannedTo 0 source.toList ts place (c :: rest) ∧ Refused place c rest e := by
  unfold tokens
  rw [map_eq_error_iff]
  constructor
  · intro h
    have hstopped := stopped_tokensFrom #[] 0 source.toList
    rw [h] at hstopped
    cases hstopped with
    | refused h hrefused => exact ⟨_, _, _, _, h, hrefused⟩
  · rintro ⟨ts, place, c, rest, h, hblank, hcomment, hlexeme⟩
    obtain ⟨found, hfound, -⟩ := tokensFrom_of_scannedTo h #[]
    rw [hfound, tokensFrom, hblank, if_neg Bool.false_ne_true, if_neg hcomment, hlexeme]

/-! ## 2. Order -/

theorem utf8Length_cons (c : Char) (rest : List Char) :
    utf8Length (c :: rest) = c.utf8Size + utf8Length rest := rfl

theorem utf8Length_blank {c : Char} (hc : Text.isAsciiBlank c = true) (rest : List Char) :
    utf8Length (c :: rest) = 1 + utf8Length rest := by
  have hascii : IsAscii c := by
    simp only [Text.isAsciiBlank, Bool.or_eq_true, beq_iff_eq] at hc
    rcases hc with (((rfl | rfl) | rfl) | rfl) | rfl <;> decide
  rw [utf8Length_cons, utf8Size_of_isAscii hascii]

theorem utf8Length_comment (text rest : List Char) :
    utf8Length ('/' :: '/' :: (text ++ rest)) = 2 + utf8Length text + utf8Length rest := by
  have hslash : ('/' : Char).utf8Size = 1 := rfl
  rw [utf8Length_cons, utf8Length_cons, utf8Length_append, hslash]
  omega

theorem utf8Length_token {c : Char} {tail rest : List Char} {l : Lexeme}
    (h : Lexes c (tail ++ rest) l tail.length) :
    utf8Length (c :: tail) = tail.length + 1 := by
  obtain ⟨tail', back, hsplit, hlength, hascii⟩ := h.exists_tail
  obtain ⟨rfl, -⟩ := List.append_inj hsplit hlength.symm
  rw [utf8Length_of_isAscii hascii, List.length_cons]

/-- Tokens are not empty and lie in what is scanned. -/
theorem Scanned.bounds (h : Scanned position cs ts) :
    ∀ t ∈ ts, position ≤ t.position ∧ 0 < t.length ∧ t.ending ≤ position + utf8Length cs := by
  induction h with
  | nil => exact List.forall_mem_nil _
  | @blank position c rest ts hc _ ih =>
    intro t ht
    obtain ⟨hstart, hlength, hending⟩ := ih t ht
    rw [utf8Length_blank hc]
    exact ⟨by omega, hlength, by omega⟩
  | @comment position text rest ts htext hend _ ih =>
    intro t ht
    obtain ⟨hstart, hlength, hending⟩ := ih t ht
    rw [utf8Length_comment]
    exact ⟨by omega, hlength, by omega⟩
  | @token position c tail rest l ts h _ ih =>
    rw [← List.cons_append, utf8Length_append, utf8Length_token h]
    intro t ht
    rcases List.mem_cons.mp ht with rfl | ht
    · exact ⟨Nat.le_refl _, Nat.succ_pos _, by simp only [Token.ending]; omega⟩
    · obtain ⟨hstart, hlength, hending⟩ := ih t ht
      exact ⟨by omega, hlength, by omega⟩

/-- **Each token ends before the next one starts.** -/
theorem Scanned.ordered (h : Scanned position cs ts) :
    ts.Pairwise (fun a b => a.ending ≤ b.position) := by
  induction h with
  | nil => exact .nil
  | blank _ _ ih => exact ih
  | comment _ _ _ ih => exact ih
  | token _ hrest ih => exact .cons (fun b hb => (hrest.bounds b hb).1) ih

/-! ## 3. Parts -/

/-- A token moved farther behind. -/
def Token.behind (distance : Nat) (t : Token) : Token := ⟨t.lexeme, distance + t.position, t.length⟩

/-- The token that is moved to its own place stood at the start. -/
theorem Token.eq_of_behind {first : Token} (h : first.behind t.position = t) :
    first = ⟨t.lexeme, 0, t.length⟩ := by
  obtain ⟨lexeme, position, length⟩ := first
  obtain ⟨rfl, hposition, rfl⟩ := Token.mk.inj h
  rw [← Nat.add_left_cancel (hposition.trans (Nat.add_zero _).symm)]

/-- What is scanned from a token on does not depend on what stands before it. -/
theorem Scanned.behind {before after : List Token} (h : Scanned position cs (before ++ t :: after)) :
    ∃ front c tail rest, cs = front ++ c :: (tail ++ rest) ∧
      position + utf8Length front = t.position ∧ t.length = tail.length + 1 ∧
      Lexes c (tail ++ rest) t.lexeme tail.length ∧ Scanned t.ending rest after := by
  generalize hts : before ++ t :: after = ts at h
  induction h generalizing before with
  | nil => exact absurd hts (by simp)
  | @blank position c rest ts hc _ ih =>
    obtain ⟨front, d, tail, back, rfl, hstart, hlexeme⟩ := ih hts
    refine ⟨c :: front, d, tail, back, rfl, ?_, hlexeme⟩
    rw [utf8Length_blank hc]
    omega
  | @comment position text rest ts htext hend _ ih =>
    obtain ⟨front, d, tail, back, rfl, hstart, hlexeme⟩ := ih hts
    refine ⟨'/' :: '/' :: (text ++ front), d, tail, back, ?_, ?_, hlexeme⟩
    · simp only [List.cons_append, List.append_assoc]
    · rw [utf8Length_comment]
      omega
  | @token position c tail rest l ts h hrest ih =>
    cases before with
    | nil =>
      obtain ⟨rfl, rfl⟩ := List.cons.inj hts
      exact ⟨[], c, tail, rest, rfl, rfl, rfl, h, hrest⟩
    | cons b before =>
      obtain ⟨front, d, tail', back, rfl, hstart, hlexeme⟩ := ih (List.cons.inj hts).2
      refine ⟨c :: (tail ++ front), d, tail', back, ?_, ?_, hlexeme⟩
      · simp only [List.cons_append, List.append_assoc]
      · rw [← List.cons_append, utf8Length_append, utf8Length_token h]
        omega

/-- Where some tokens end that are found behind a position. -/
def endOf (position : Nat) (ts : List Token) : Nat := (ts.getLast?.map Token.ending).getD position

theorem endOf_cons (position : Nat) (t : Token) (ts : List Token) :
    endOf position (t :: ts) = endOf t.ending ts := by
  unfold endOf
  rw [List.getLast?_cons]
  cases ts.getLast? <;> rfl

theorem endOf_behind (distance position : Nat) (ts : List Token) :
    endOf (distance + position) (ts.map (Token.behind distance)) = distance + endOf position ts := by
  unfold endOf
  rw [List.getLast?_map]
  cases ts.getLast? with
  | none => rfl
  | some t => exact Nat.add_assoc _ _ _

/-- **What was passed is cut into the same tokens when it stands alone.** -/
theorem ScannedTo.exists_front {place : Nat} {back : List Char}
    (h : ScannedTo position cs ts place back) :
    ∃ front, cs = front ++ back ∧ position + utf8Length front = place ∧
      Scanned position front ts := by
  induction h with
  | here position cs => exact ⟨[], rfl, rfl, .nil position⟩
  | blank hc _ ih =>
    obtain ⟨front, rfl, rfl, hscanned⟩ := ih
    refine ⟨_ :: front, rfl, ?_, .blank hc hscanned⟩
    rw [utf8Length_blank hc, Nat.add_assoc]
  | @comment position place text rest back ts htext hend _ ih =>
    obtain ⟨front, rfl, rfl, hscanned⟩ := ih
    refine ⟨'/' :: '/' :: (text ++ front), by simp, ?_, .comment htext ?_ hscanned⟩
    · rw [utf8Length_comment]
      omega
    -- The line ends where what was passed ends, or goes on as before.
    · cases front with
      | nil => exact nofun
      | cons c front => exact hend
  | @token position place c tail rest back l ts h _ ih =>
    obtain ⟨front, rfl, rfl, hscanned⟩ := ih
    rw [← List.append_assoc] at h
    have hlexes := h.of_append (by rw [List.length_append]; omega)
    refine ⟨c :: (tail ++ front), by simp, ?_, .token hlexes hscanned⟩
    rw [← List.cons_append, utf8Length_append, utf8Length_token hlexes]
    omega

/-- A scan passes the end of each token. -/
theorem Scanned.passes {parts after : List Token} (h : Scanned position cs (parts ++ after)) :
    ∃ back, ScannedTo position cs parts (endOf position parts) back := by
  generalize hts : parts ++ after = ts at h
  induction h generalizing parts with
  | nil position =>
    obtain ⟨rfl, -⟩ := List.append_eq_nil_iff.mp hts
    exact ⟨[], .here position []⟩
  | blank hc _ ih =>
    cases parts with
    | nil => exact ⟨_, .here _ _⟩
    | cons t parts =>
      obtain ⟨back, hpassed⟩ := ih hts
      rw [endOf_cons] at hpassed ⊢
      exact ⟨back, .blank hc hpassed⟩
  | comment htext hend _ ih =>
    cases parts with
    | nil => exact ⟨_, .here _ _⟩
    | cons t parts =>
      obtain ⟨back, hpassed⟩ := ih hts
      rw [endOf_cons] at hpassed ⊢
      exact ⟨back, .comment htext hend hpassed⟩
  | token h _ ih =>
    cases parts with
    | nil => exact ⟨_, .here _ _⟩
    | cons t parts =>
      obtain ⟨rfl, hrest⟩ := List.cons.inj hts
      obtain ⟨back, hpassed⟩ := ih hrest
      rw [endOf_cons]
      exact ⟨back, .token h hpassed⟩

/-- **A text that is cut off behind a token is cut into the tokens up to there.** -/
theorem Scanned.cut {parts after : List Token} (h : Scanned position cs (parts ++ after)) :
    ∃ text back, cs = text ++ back ∧ Scanned position text parts ∧
      position + utf8Length text = endOf position parts := by
  obtain ⟨back, hpassed⟩ := h.passes
  obtain ⟨text, hsplit, hending, hscanned⟩ := hpassed.exists_front
  exact ⟨text, back, hsplit, hscanned, hending⟩

/-- **Where a text stands makes no difference.** -/
theorem Scanned.moved {distance : Nat} (h : Scanned (distance + position) cs ts) :
    ∃ ts', Scanned position cs ts' ∧ ts'.map (Token.behind distance) = ts := by
  generalize hstart : distance + position = start at h
  induction h generalizing position with
  | nil => exact ⟨[], .nil position, rfl⟩
  | blank hc _ ih =>
    subst hstart
    obtain ⟨ts', hts', hmap⟩ := ih (Nat.add_assoc distance position 1).symm
    exact ⟨ts', .blank hc hts', hmap⟩
  | @comment _ text _ _ htext hend _ ih =>
    subst hstart
    have hnext : distance + (position + 2 + utf8Length text) =
        distance + position + 2 + utf8Length text := by omega
    obtain ⟨ts', hts', hmap⟩ := ih hnext
    exact ⟨ts', .comment htext hend hts', hmap⟩
  | token h _ ih =>
    subst hstart
    obtain ⟨ts', hts', rfl⟩ := ih (Nat.add_assoc _ _ _).symm
    exact ⟨_, .token h hts', rfl⟩

/-- **And so a text may stand farther behind.** -/
theorem Scanned.shifted (h : Scanned position cs ts) (distance : Nat) :
    Scanned (distance + position) cs (ts.map (Token.behind distance)) := by
  induction h with
  | nil => exact .nil _
  | blank hc _ ih => exact .blank hc ih
  | @comment position text rest ts htext hend _ ih =>
    rw [← Nat.add_assoc, ← Nat.add_assoc] at ih
    exact .comment htext hend ih
  | @token position c tail rest l ts h _ ih =>
    rw [← Nat.add_assoc] at ih
    exact .token h ih

/-- **The text of some tokens in a row is cut into just these tokens when it stands alone.**  It
reaches from the start of the first token to the end of the last one. -/
theorem Scanned.part {before parts after : List Token}
    (h : Scanned 0 cs (before ++ (t :: parts) ++ after)) :
    ∃ front text back alone, cs = front ++ text ++ back ∧ utf8Length front = t.position ∧
      Scanned 0 text alone ∧ alone.map (Token.behind t.position) = t :: parts ∧
      utf8Length text = endOf 0 alone := by
  rw [List.append_assoc, List.cons_append] at h
  obtain ⟨front, c, tail, rest, rfl, hstart, hlength, hlexes, hrest⟩ := h.behind
  rw [Nat.zero_add] at hstart
  have hhere : Scanned t.position (c :: (tail ++ rest)) ((t :: parts) ++ after) := by
    obtain ⟨l, position, length⟩ := t
    simp only [Token.ending] at hlength hrest
    subst hlength
    exact .token hlexes hrest
  obtain ⟨text, back, hsplit, hcut, hending⟩ := hhere.cut
  rw [← Nat.add_zero t.position] at hcut
  obtain ⟨alone, halone, hmap⟩ := hcut.moved
  refine ⟨front, text, back, alone, by rw [hsplit, List.append_assoc], hstart, halone, hmap, ?_⟩
  have hmoved := endOf_behind t.position 0 alone
  rw [hmap, Nat.add_zero] at hmoved
  rw [hmoved] at hending
  exact Nat.add_left_cancel hending

theorem eq_nil_of_utf8Length {text : List Char} (h : utf8Length text = 0) : text = [] := by
  cases text with
  | nil => rfl
  | cons c rest =>
    have hpos : 0 < c.utf8Size := c.utf8Size_pos
    rw [utf8Length_cons] at h
    omega

/-- A text that starts with a keyword spells it. -/
theorem Scanned.spells_keyword {k : Keyword} {length : Nat}
    (h : Scanned 0 cs ([] ++ ⟨.keyword k, 0, length⟩ :: ts)) : k.word.toList <+: cs := by
  obtain ⟨front, c, tail, rest, rfl, hstart, -, hlexes, -⟩ := h.behind
  rw [Nat.zero_add] at hstart
  rw [eq_nil_of_utf8Length hstart, hlexes.keyword_text rfl]
  exact List.prefix_append (c :: tail) rest

end Ledboard.Assembly
