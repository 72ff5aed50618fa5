/-
# What tokens spell

The tokens of a source are statements, one behind another (`Grouped`), each spelled by an
operation or a directive with its operands (`Spells`).  `parse_eq_ok_iff` says that the statements
of a source are exactly those that its tokens spell.

* **Spans** (`Spells.span`, `Grouped.ordered`).  A statement reaches from the start of its first
  token to the end of its last one, and ends before the next one starts.
* **Places** (`Spells.moved`).  What tokens spell does not depend on where they stand.
-/
import Ledboard.Assembly.Program
import Ledboard.Proofs.Assembly.Scanning

namespace Ledboard.Assembly

/-! ## 1. Statements -/

/-- Some tokens are the operation and the operands of a statement. -/
inductive Spells : List Token → Statement → Prop where
  | plain {head : Token} {i : Instruction} (h : head.lexeme.form? = some (.plain i)) :
      Spells [head] (.between head head (.emit i))
  | unary {head operand : Token} {expected : Expected} {read : Lexeme → Option Action}
      {action : Action} (h : head.lexeme.form? = some (.unary expected read))
      (hread : read operand.lexeme = some action) :
      Spells [head, operand] (.between head operand action)
  | naming {head name register : Token} {text : String} {number : UInt8}
      (h : head.lexeme.form? = some .naming) (hname : name.lexeme.name? = some text)
      (hregister : register.lexeme.register? = some number) :
      Spells [head, name, register] (.between head register (.nameRegister text number))

/-- Some tokens are statements, one behind another. -/
inductive Grouped : List Token → List Statement → Prop where
  | nil : Grouped [] []
  | cons {parts rest : List Token} {s : Statement} {ss : List Statement} (h : Spells parts s)
      (hrest : Grouped rest ss) : Grouped (parts ++ rest) (s :: ss)

variable {parts ts : List Token} {s : Statement} {ss : List Statement}

/-- The statements that are found are spelled by the tokens. -/
theorem grouped_of_statementsFrom {ending : Nat} {done found : Array Statement}
    (h : statementsFrom ending done ts = .ok found) :
    ∃ ss, Grouped ts ss ∧ found.toList = done.toList ++ ss := by
  have hpush : ∀ {parts rest : List Token} {s : Statement} {done : Array Statement},
      Spells parts s → (∃ ss, Grouped rest ss ∧ found.toList = (done.push s).toList ++ ss) →
      ∃ ss, Grouped (parts ++ rest) ss ∧ found.toList = done.toList ++ ss := by
    rintro parts rest s done hspells ⟨ss, hgrouped, hfound⟩
    refine ⟨s :: ss, .cons hspells hgrouped, ?_⟩
    rw [hfound, Array.toList_push, List.append_assoc]
    rfl
  fun_induction statementsFrom ending done ts with
  | case1 done =>
    rw [Except.ok.injEq] at h
    exact ⟨[], .nil, by rw [h, List.append_nil]⟩
  | case3 done head rest i hform ih => exact hpush (.plain hform) (ih h)
  | case6 done head expected read hform operand rest action hread ih =>
    exact hpush (.unary hform hread) (ih h)
  | case11 done head hform name text hname register rest number hnumber action ih =>
    exact hpush (.naming hform hname hnumber) (ih h)
  | _ => exact absurd h (by simp)

/-- The statements that tokens spell are found. -/
theorem statementsFrom_of_grouped (h : Grouped ts ss) (ending : Nat) (done : Array Statement) :
    ∃ found, statementsFrom ending done ts = .ok found ∧ found.toList = done.toList ++ ss := by
  induction h generalizing done with
  | nil => exact ⟨done, by rw [statementsFrom], by rw [List.append_nil]⟩
  | @cons parts rest s ss h _ ih =>
    obtain ⟨found, hfound, hlist⟩ := ih (done.push s)
    refine ⟨found, ?_, by rw [hlist, Array.toList_push, List.append_assoc]; rfl⟩
    rw [← hfound]
    cases h with
    | @plain head i h =>
      change statementsFrom ending done (head :: rest) = _
      rw [statementsFrom.eq_def]
      simp only [h]
    | unary h hread => simp only [List.cons_append, List.nil_append, statementsFrom, h, hread]
    | naming h hname hregister =>
      simp only [List.cons_append, List.nil_append, statementsFrom, h, hname, hregister]

theorem statements_eq_ok_iff {ending : Nat} : statements ending ts = .ok ss ↔ Grouped ts ss := by
  unfold statements
  rw [map_eq_ok_iff]
  constructor
  · rintro ⟨found, hfound, rfl⟩
    obtain ⟨ss, hss, hlist⟩ := grouped_of_statementsFrom hfound
    rw [hlist]
    exact hss
  · intro h
    obtain ⟨found, hfound, hlist⟩ := statementsFrom_of_grouped h ending #[]
    exact ⟨found, hfound, hlist⟩

/-- **The statements of a source are those that its tokens spell.** -/
theorem parse_eq_ok_iff {source : String} :
    parse source = .ok ss ↔ ∃ ts, tokens source = .ok ts ∧ Grouped ts ss := by
  unfold parse
  rw [bind_eq_ok_iff]
  simp only [statements_eq_ok_iff]

/-- One of the statements is spelled by some tokens in a row. -/
theorem Grouped.split {front back : List Statement} (h : Grouped ts (front ++ s :: back)) :
    ∃ before parts after, ts = before ++ parts ++ after ∧ Spells parts s := by
  generalize hss : front ++ s :: back = ss at h
  induction h generalizing front with
  | nil => exact absurd hss (by simp)
  | @cons parts rest s' ss' hs hrest ih =>
    cases front with
    | nil =>
      obtain ⟨rfl, rfl⟩ := List.cons.inj hss
      exact ⟨[], parts, rest, rfl, hs⟩
    | cons s'' front =>
      obtain ⟨before, parts', after, rfl, hspells⟩ := ih (List.cons.inj hss).2
      exact ⟨parts ++ before, parts', after, by simp, hspells⟩

/-! ## 2. Spans -/

/-- **A statement reaches from the start of its first token to the end of its last one.** -/
theorem Spells.span (h : Spells parts s)
    (hordered : parts.Pairwise (fun a b => a.ending ≤ b.position)) :
    ∃ head more, parts = head :: more ∧ s.position = head.position ∧
      s.position + s.length = endOf head.position parts := by
  have hspan : ∀ {head last : Token} {action : Action}, head.position ≤ last.ending →
      (Statement.between head last action).position +
        (Statement.between head last action).length = last.ending := by
    intro head last action hle
    simp only [Statement.between]
    omega
  have hstart : ∀ t : Token, t.position ≤ t.ending := fun t => Nat.le_add_right _ _
  cases h with
  | @plain head i h => exact ⟨head, [], rfl, rfl, hspan (hstart head)⟩
  | @unary head operand expected read action h hread =>
    have hle : head.ending ≤ operand.position := by simpa using hordered
    exact ⟨head, [operand], rfl, rfl, hspan (by have := hstart head; have := hstart operand; omega)⟩
  | @naming head name register text number h hname hregister =>
    have hle : head.ending ≤ register.position := by
      simp only [List.pairwise_cons, List.mem_cons] at hordered
      exact hordered.1 register (Or.inr (Or.inl rfl))
    exact ⟨head, [name, register], rfl, rfl,
      hspan (by have := hstart head; have := hstart register; omega)⟩

/-- Where some tokens end is where one of them ends. -/
theorem exists_endOf (head : Token) (more : List Token) :
    ∃ last ∈ head :: more, endOf head.position (head :: more) = last.ending := by
  refine ⟨(head :: more).getLast (List.cons_ne_nil _ _), List.getLast_mem _, ?_⟩
  rw [endOf, List.getLast?_eq_some_getLast (List.cons_ne_nil _ _)]
  rfl

/-- Tokens of which none is empty and each ends before the next one starts. -/
def InOrder (ts : List Token) : Prop :=
  (∀ t ∈ ts, 0 < t.length) ∧ ts.Pairwise (fun a b => a.ending ≤ b.position)

/-- A statement is not empty and lies where its tokens lie. -/
theorem Spells.within (h : Spells parts s) (hparts : InOrder parts) :
    0 < s.length ∧ (∃ t ∈ parts, s.position = t.position) ∧
      ∃ t ∈ parts, s.position + s.length = t.ending := by
  obtain ⟨head, more, rfl, hstart, hending⟩ := h.span hparts.2
  obtain ⟨last, hlast, heq⟩ := exists_endOf head more
  have hpos : head.position < last.ending := by
    have hhead : head.position < head.ending :=
      Nat.lt_add_of_pos_right (hparts.1 head List.mem_cons_self)
    rcases List.mem_cons.mp hlast with rfl | hmore
    · exact hhead
    · have hle := (List.pairwise_cons.mp hparts.2).1 last hmore
      exact Nat.lt_of_lt_of_le hhead (Nat.le_trans hle (Nat.le_add_right _ _))
  rw [heq] at hending
  exact ⟨by omega, ⟨head, List.mem_cons_self, hstart⟩, ⟨last, hlast, hending⟩⟩

/-- **Statements are not empty, and each ends before the next one starts.** -/
theorem Grouped.ordered (h : Grouped ts ss) (hts : InOrder ts) :
    (∀ s ∈ ss, 0 < s.length ∧ ∃ t ∈ ts, s.position = t.position) ∧
      ss.Pairwise (fun a b => a.position + a.length ≤ b.position) := by
  induction h with
  | nil => exact ⟨List.forall_mem_nil _, .nil⟩
  | @cons parts rest s ss hs hrest ih =>
    obtain ⟨hlengths, hordered⟩ := hts
    rw [List.pairwise_append] at hordered
    obtain ⟨hfirst, hlater, hacross⟩ := hordered
    obtain ⟨hall, hpairs⟩ := ih ⟨fun t ht => hlengths t (List.mem_append_right _ ht), hlater⟩
    obtain ⟨hpos, ⟨head, hhead, hstart⟩, last, hlast, hending⟩ :=
      hs.within ⟨fun t ht => hlengths t (List.mem_append_left _ ht), hfirst⟩
    constructor
    · intro s' hs'
      rcases List.mem_cons.mp hs' with rfl | hs'
      · exact ⟨hpos, head, List.mem_append_left _ hhead, hstart⟩
      · obtain ⟨hpos', t, ht, hposition⟩ := hall s' hs'
        exact ⟨hpos', t, List.mem_append_right _ ht, hposition⟩
    · refine .cons ?_ hpairs
      intro s' hs'
      obtain ⟨-, t, ht, hposition⟩ := hall s' hs'
      rw [hending, hposition]
      exact hacross last hlast t ht

/-! ## 3. Places -/

/-- **What tokens spell does not depend on where they stand.** -/
theorem Spells.moved {alone : List Token} {distance : Nat}
    (h : Spells (alone.map (Token.behind distance)) s) :
    ∃ s', Spells alone s' ∧ s'.action = s.action := by
  generalize hparts : alone.map (Token.behind distance) = parts at h
  cases h with
  | plain h =>
    obtain ⟨head, rfl, rfl⟩ := List.map_eq_singleton_iff.mp hparts
    exact ⟨_, .plain h, rfl⟩
  | unary h hread =>
    obtain ⟨head, more, rfl, rfl, hmore⟩ := List.map_eq_cons_iff.mp hparts
    obtain ⟨operand, rfl, rfl⟩ := List.map_eq_singleton_iff.mp hmore
    exact ⟨_, .unary h hread, rfl⟩
  | naming h hname hregister =>
    obtain ⟨head, more, rfl, rfl, hmore⟩ := List.map_eq_cons_iff.mp hparts
    obtain ⟨name, last, rfl, rfl, hlast⟩ := List.map_eq_cons_iff.mp hmore
    obtain ⟨register, rfl, rfl⟩ := List.map_eq_singleton_iff.mp hlast
    exact ⟨_, .naming h hname hregister, rfl⟩

/-! ## 4. Keywords and names -/

/-- A statement starts with a keyword or a directive. -/
theorem form?_eq_some {l : Lexeme} {form : Form} (h : l.form? = some form) :
    (∃ k, l = .keyword k) ∨ form = .naming ∨
      form = .unary .name (fun l => l.name?.map .here) := by
  cases l with
  | keyword k => exact Or.inl ⟨k, rfl⟩
  | nameDirective => exact Or.inr (Or.inl (Option.some.inj h).symm)
  | hereDirective => exact Or.inr (Or.inr (Option.some.inj h).symm)
  | _ => exact absurd h (by simp [Lexeme.form?])

/-- **A statement that emits code starts with a keyword.** -/
theorem Spells.keyword (h : Spells parts s) (hemits : 0 < s.action.width) :
    ∃ head more k, parts = head :: more ∧ head.lexeme = .keyword k := by
  cases h with
  | @plain head i h =>
    rcases form?_eq_some h with ⟨k, hk⟩ | hform | hform
    · exact ⟨head, [], k, rfl, hk⟩
    · exact absurd hform (by simp)
    · exact absurd hform (by simp)
  | @unary head operand expected read action h hread =>
    rcases form?_eq_some h with ⟨k, hk⟩ | hform | hform
    · exact ⟨head, [operand], k, rfl, hk⟩
    · exact absurd hform (by simp)
    · obtain ⟨-, rfl⟩ := Form.unary.inj hform
      obtain ⟨name, -, rfl⟩ := Option.map_eq_some_iff.mp hread
      exact absurd hemits (Nat.lt_irrefl 0)
  | naming => exact absurd hemits (Nat.lt_irrefl 0)

/-- An operation that refers to no name emits an instruction that is known by itself. -/
inductive Plain : Action → Instruction → Prop where
  | emit (i : Instruction) : Plain (.emit i) i
  | push (r : UInt8) : Plain (.push (.number r)) (.pushReg r)
  | pop (r : UInt8) : Plain (.pop (.number r)) (.popReg r)

/-- Four operations have one operand: `push`, `pop`, `jl` and `#here`. -/
theorem read_of_unary {l : Lexeme} {expected : Expected} {read : Lexeme → Option Action}
    (h : l.form? = some (.unary expected read)) :
    read = pushOperand? ∨ read = popOperand? ∨ read = (fun l => l.name?.map .jump) ∨
      read = (fun l => l.name?.map .here) := by
  unfold Lexeme.form? at h
  split at h <;> simp only [Option.some.injEq, Form.unary.injEq, reduceCtorEq] at h
  · exact Or.inl h.2.symm
  · exact Or.inr (Or.inl h.2.symm)
  · exact Or.inr (Or.inr (Or.inl h.2.symm))
  · exact Or.inr (Or.inr (Or.inr h.2.symm))

/-- What an operation makes of an operand that is no name. -/
theorem exists_plain_of_read {head operand : Lexeme} {expected : Expected}
    {read : Lexeme → Option Action} {action : Action}
    (h : head.form? = some (.unary expected read)) (hread : read operand = some action)
    (hname : operand.name? = none) : ∃ i, Plain action i := by
  have hnone : ∀ make : String → Action, operand.name?.map make ≠ some action := by
    intro make
    rw [hname, Option.map_none]
    exact (Option.some_ne_none action).symm
  rcases read_of_unary h with rfl | rfl | rfl | rfl
  · unfold pushOperand? at hread
    split at hread
    · obtain rfl := Option.some.inj hread
      exact ⟨_, .emit _⟩
    · obtain rfl := Option.some.inj hread
      exact ⟨_, .push _⟩
    · exact absurd hname (by simp [Lexeme.name?])
    · exact absurd hread (by simp)
  · unfold popOperand? at hread
    split at hread
    · obtain rfl := Option.some.inj hread
      exact ⟨_, .pop _⟩
    · exact absurd hname (by simp [Lexeme.name?])
    · exact absurd hread (by simp)
  · exact absurd hread (hnone _)
  · exact absurd hread (hnone _)

/-- **A statement without names emits an instruction that is known by itself.** -/
theorem Spells.exists_plain (h : Spells parts s) (hnames : ∀ t ∈ parts, t.lexeme.name? = none) :
    ∃ i, Plain s.action i := by
  cases h with
  | plain => exact ⟨_, .emit _⟩
  | unary h hread => exact exists_plain_of_read h hread (hnames _ (by simp))
  | @naming head name register text number h hname hregister =>
    have hnone := hnames name (by simp)
    exact absurd (hname.symm.trans hnone) (Option.some_ne_none text)

end Ledboard.Assembly
