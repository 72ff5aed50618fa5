/-
# White space

Two notions of white space are in use.  Header lines and settings count every character with the
Unicode property White_Space; assembly source counts five ASCII characters only.
-/

namespace Ledboard.Text

/-- Whether a character has the Unicode property White_Space. -/
def isBlank (c : Char) : Bool :=
  let n := c.toNat
  (decide (9 ≤ n) && decide (n ≤ 13)) || n == 0x20 || n == 0x85 || n == 0xa0 || n == 0x1680
    || (decide (0x2000 ≤ n) && decide (n ≤ 0x200a))
    || n == 0x2028 || n == 0x2029 || n == 0x202f || n == 0x205f || n == 0x3000

/-- The numbers of the characters with that property, in their order. -/
def whiteSpace : List Nat :=
  [0x9, 0xa, 0xb, 0xc, 0xd, 0x20, 0x85, 0xa0, 0x1680, 0x2000, 0x2001, 0x2002, 0x2003, 0x2004, 0x2005,
    0x2006, 0x2007, 0x2008, 0x2009, 0x200a, 0x2028, 0x2029, 0x202f, 0x205f, 0x3000]

theorem isBlank_iff_mem {c : Char} : isBlank c = true ↔ c.toNat ∈ whiteSpace := by
  simp only [isBlank, whiteSpace, Bool.or_eq_true, Bool.and_eq_true, decide_eq_true_eq, beq_iff_eq,
    List.mem_cons, List.not_mem_nil, or_false]
  omega

/-- Whether a character is space, tab, line feed, form feed or carriage return. -/
def isAsciiBlank (c : Char) : Bool :=
  c == ' ' || c == '\t' || c == '\n' || c == '\x0c' || c == '\r'

/-- A text without the white space at its end. -/
def trimEnd (cs : List Char) : List Char := (cs.reverse.dropWhile isBlank).reverse

/-- A text without the white space at its two ends. -/
def trim (cs : List Char) : List Char := trimEnd (cs.dropWhile isBlank)

/-- What it means that a text is another one without the white space at its two ends. -/
structure Trimmed (cs ts : List Char) : Prop where
  ends : ∃ front back, cs = front ++ ts ++ back ∧ (∀ c ∈ front, isBlank c = true) ∧
    ∀ c ∈ back, isBlank c = true
  first : ∀ c, ts.head? = some c → isBlank c = false
  last : ∀ c, ts.getLast? = some c → isBlank c = false

theorem dropWhile_eq_self {cs : List Char} (h : ∀ c, cs.head? = some c → isBlank c = false) :
    cs.dropWhile isBlank = cs := by
  cases cs with
  | nil => rfl
  | cons c cs => exact List.dropWhile_cons_of_neg (by simp [h c rfl])

theorem isBlank_of_head?_dropWhile {cs : List Char} {c : Char}
    (h : (cs.dropWhile isBlank).head? = some c) : isBlank c = false := by
  have hhead := List.head?_dropWhile_not isBlank cs
  rw [h] at hhead
  simpa using hhead

theorem isBlank_of_mem_takeWhile {cs : List Char} {c : Char} (h : c ∈ cs.takeWhile isBlank) :
    isBlank c = true :=
  List.all_eq_true.mp List.all_takeWhile c h

/-- There is white space only behind what is left of a text without the white space at its end. -/
theorem exists_trimEnd (cs : List Char) :
    ∃ back, cs = trimEnd cs ++ back ∧ ∀ c ∈ back, isBlank c = true := by
  refine ⟨(cs.reverse.takeWhile isBlank).reverse, ?_, fun c hc =>
    isBlank_of_mem_takeWhile (List.mem_reverse.mp hc)⟩
  rw [trimEnd, ← List.reverse_append, List.takeWhile_append_dropWhile, List.reverse_reverse]

/-- **Trimming takes off the white space at the two ends**, all of it and nothing else. -/
theorem trim_eq_iff {cs ts : List Char} : trim cs = ts ↔ Trimmed cs ts := by
  constructor
  · rintro rfl
    obtain ⟨back, hsplit, hback⟩ := exists_trimEnd (cs.dropWhile isBlank)
    constructor
    case ends =>
      refine ⟨cs.takeWhile isBlank, back, ?_, fun c => isBlank_of_mem_takeWhile, hback⟩
      rw [trim, List.append_assoc, ← hsplit, List.takeWhile_append_dropWhile]
    case first =>
      intro c hc
      have hhead : (cs.dropWhile isBlank).head? = some c := by
        rw [hsplit, List.head?_append, ← trim, hc]
        rfl
      exact isBlank_of_head?_dropWhile hhead
    case last =>
      intro c hc
      rw [trim, trimEnd, List.getLast?_reverse] at hc
      exact isBlank_of_head?_dropWhile hc
  · rintro ⟨⟨front, back, rfl, hfront, hback⟩, hfirst, hlast⟩
    have hback' : ∀ c ∈ back.reverse, isBlank c = true :=
      fun c hc => hback c (List.mem_reverse.mp hc)
    have hlast' : ∀ c, ts.reverse.head? = some c → isBlank c = false := by
      intro c hc
      exact hlast c (by rwa [List.head?_reverse] at hc)
    rw [trim, List.append_assoc, List.dropWhile_append_of_pos hfront]
    cases ts with
    | nil =>
      have hblank : (back ++ []).dropWhile isBlank = [] := List.dropWhile_append_of_pos hback
      rw [List.append_nil] at hblank
      rw [List.nil_append, hblank]
      rfl
    | cons c ts =>
      rw [dropWhile_eq_self (by simpa using hfirst), trimEnd, List.reverse_append,
        List.dropWhile_append_of_pos hback', dropWhile_eq_self hlast', List.reverse_reverse]

end Ledboard.Text
