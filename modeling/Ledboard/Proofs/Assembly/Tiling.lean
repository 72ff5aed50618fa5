/-
# The rows of a program tile its bytes

The rows of an assembled program lie one behind another without gaps (`Tiled`).  Each row's code
stands in the bytes at the row's offset and can be read back, and the places where control can go
from a row, which are the place behind it and the target of its jump, are *boundaries*: the offset
of a row or the end of the program.

All of this is read off the meaning of the statements (`Compiled`).  The one observation behind
it is that the size of any first part of the statements is a boundary (`boundary_of_split`); a
mark and the end of a statement are both of this kind.
-/
import Ledboard.Proofs.Assembly.Linking
import Ledboard.Proofs.Assembly.Registers

namespace Ledboard.Assembly

variable {ss before rest : List Statement} {rows : List Row}

/-! ## 1. Rows and statements -/

theorem width_of_means {a : Action} {i : Instruction} (h : Means ss before a (some i)) :
    i.width = a.width := by
  cases h <;> rfl

theorem width_of_means_none {a : Action} (h : Means ss before a none) : a.width = 0 := by
  cases h <;> rfl

/-- Each row comes from one statement, and points at its text. -/
theorem statement_of_row {row : Row} (h : Compiled ss before rest rows) (hrow : row ∈ rows) :
    ∃ front s back, rest = front ++ s :: back ∧
      Means ss (before ++ front) s.action (some row.instruction) ∧
      row.offset = emittedSize (before ++ front) ∧
      row.position = s.position ∧ row.length = s.length := by
  induction h with
  | nil => exact absurd hrow (by simp)
  | @silent before rest s rows h hrest ih =>
    obtain ⟨front, t, back, rfl, hmeans, hoffset, hspan⟩ := ih hrow
    rw [List.append_assoc] at hmeans hoffset
    exact ⟨s :: front, t, back, rfl, hmeans, hoffset, hspan⟩
  | @code before rest s rows i h hrest ih =>
    rcases List.mem_cons.mp hrow with rfl | hrow
    · exact ⟨[], s, rest, rfl, by simpa using h, by simp, rfl, rfl⟩
    · obtain ⟨front, t, back, rfl, hmeans, hoffset, hspan⟩ := ih hrow
      rw [List.append_assoc] at hmeans hoffset
      exact ⟨s :: front, t, back, rfl, hmeans, hoffset, hspan⟩

/-- **Every first part of the statements ends where a row begins or where all rows end.** -/
theorem boundary_of_split (h : Compiled ss before rest rows) {front back : List Statement}
    (hsplit : rest = front ++ back) :
    emittedSize (before ++ front) = emittedSize (before ++ rest) ∨
      ∃ row ∈ rows, row.offset = emittedSize (before ++ front) := by
  induction h generalizing front back with
  | nil before =>
    obtain ⟨rfl, -⟩ := List.append_eq_nil_iff.mp hsplit.symm
    exact Or.inl rfl
  | @silent before rest s rows h hrest ih =>
    rw [append_cons_eq_snoc]
    cases front with
    | nil =>
      have hsize : emittedSize (before ++ [s] ++ []) = emittedSize (before ++ []) := by
        rw [List.append_nil, List.append_nil, emittedSize_snoc, width_of_means_none h,
          Nat.add_zero]
      exact hsize ▸ @ih [] rest rfl
    | cons t front =>
      obtain ⟨rfl, htail⟩ := List.cons.inj hsplit
      exact append_cons_eq_snoc before front s ▸ ih htail
  | @code before rest s rows i h hrest ih =>
    rw [append_cons_eq_snoc]
    cases front with
    | nil => exact Or.inr ⟨_, List.mem_cons_self, by rw [List.append_nil]⟩
    | cons t front =>
      obtain ⟨rfl, htail⟩ := List.cons.inj hsplit
      rw [append_cons_eq_snoc]
      rcases ih htail with hend | ⟨row, hrow, hoffset⟩
      · exact Or.inl hend
      · exact Or.inr ⟨row, List.mem_cons_of_mem _ hrow, hoffset⟩

/-- The bytes of some rows. -/
def bytesOf (rows : List Row) : List UInt8 := rows.flatMap (fun row => row.instruction.encode)

/-- The rows take as many bytes as their statements emit. -/
theorem length_bytesOf (h : Compiled ss before rest rows) :
    (bytesOf rows).length = emittedSize rest := by
  induction h with
  | nil => rfl
  | @silent before rest s rows h hrest ih =>
    rw [ih, ← Nat.zero_add (emittedSize rest), ← width_of_means_none h]
    rfl
  | @code before rest s rows i h hrest ih =>
    simp only [bytesOf, List.flatMap_cons, List.length_append, Instruction.length_encode] at ih ⊢
    rw [ih, width_of_means h]
    rfl

/-- A row's code stands at the row's offset. -/
theorem code_of_row {row : Row} (h : Compiled ss before rest rows) (hrow : row ∈ rows) :
    ∃ front back, bytesOf rows = front ++ row.instruction.encode ++ back ∧
      emittedSize before + front.length = row.offset := by
  induction h with
  | nil => exact absurd hrow (by simp)
  | @silent before rest s rows h hrest ih =>
    obtain ⟨front, back, hbytes, hoffset⟩ := ih hrow
    rw [emittedSize_snoc, width_of_means_none h, Nat.add_zero] at hoffset
    exact ⟨front, back, hbytes, hoffset⟩
  | @code before rest s rows i h hrest ih =>
    rcases List.mem_cons.mp hrow with rfl | hrow
    · exact ⟨[], bytesOf rows, rfl, rfl⟩
    · obtain ⟨front, back, hbytes, hoffset⟩ := ih hrow
      refine ⟨i.encode ++ front, back, ?_, ?_⟩
      · simp only [bytesOf, List.flatMap_cons, List.append_assoc] at hbytes ⊢
        rw [hbytes]
      · rw [emittedSize_snoc, ← width_of_means h] at hoffset
        rw [List.length_append, Instruction.length_encode]
        omega

/-- Where the registers of a source exist, the instructions that its statements mean can be read
back. -/
theorem canonical_of_means {a : Action} {i : Instruction} (hss : ∀ s ∈ ss, s.action.Exists)
    (ha : a.Exists) (h : Means ss before a (some i)) : i.Canonical := by
  have hregister : ∀ {r : RegisterRef} {n : UInt8}, Denotes ss r n →
      (Action.push r).Exists → n.toNat < Instruction.registerCount := by
    intro r n hdenotes hr
    cases hdenotes with
    | number => exact hr
    | name hfirst =>
      obtain ⟨front, t, back, rfl, ht, -⟩ := hfirst
      have hexists := hss t (by simp)
      rw [ht] at hexists
      exact hexists
  cases h with
  | emit => exact ha.1
  | push hdenotes => exact hregister hdenotes ha
  | pop hdenotes => exact hregister hdenotes (by cases hdenotes <;> exact ha)
  | jump => trivial

/-! ## 2. Programs -/

/-- The places where control can be between two instructions of a program: where one of its rows
begins, or at its end. -/
def Program.Boundary (p : Program) (offset : Nat) : Prop :=
  offset = p.bytes.length ∨ ∃ row ∈ p.rows, row.offset = offset

/-- What running a program needs to know of its rows. -/
structure Tiled (p : Program) : Prop where
  /-- a row's code stands at its offset -/
  code : ∀ row ∈ p.rows, ∃ front back,
    p.bytes = front ++ row.instruction.encode ++ back ∧ front.length = row.offset
  /-- and can be read back -/
  canonical : ∀ row ∈ p.rows, row.instruction.Canonical
  start : p.Boundary 0
  next : ∀ row ∈ p.rows, p.Boundary (row.offset + row.instruction.width)
  jump : ∀ row ∈ p.rows, ∀ d, row.instruction = .jumpIfLess d →
    ∃ offset : Nat, (row.offset : Int) + d.toInt = offset ∧ p.Boundary offset

/-- **Assembled programs are tiled by their rows.** -/
theorem tiled_of_compiled {p : Program} (hss : ∀ s ∈ ss, s.action.Exists)
    (h : Compiled ss [] ss p.rows) : Tiled p := by
  have hlength : p.bytes.length = emittedSize ss := length_bytesOf h
  have hboundary : ∀ front back : List Statement, ss = front ++ back →
      p.Boundary (emittedSize front) := by
    intro front back hsplit
    rcases boundary_of_split h hsplit with hend | hrow
    · exact Or.inl (hlength ▸ hend)
    · exact Or.inr hrow
  refine ⟨?_, ?_, hboundary [] ss rfl, ?_, ?_⟩
  · intro row hrow
    obtain ⟨front, back, hbytes, hoffset⟩ := code_of_row h hrow
    exact ⟨front, back, hbytes, by simpa [emittedSize] using hoffset⟩
  · intro row hrow
    obtain ⟨front, s, back, hsplit, hmeans, -⟩ := statement_of_row h hrow
    exact canonical_of_means hss (hss s (by simp [hsplit])) hmeans
  · intro row hrow
    obtain ⟨front, s, back, hsplit, hmeans, hoffset, -⟩ := statement_of_row h hrow
    rw [hoffset, width_of_means hmeans, List.nil_append, ← emittedSize_snoc]
    exact hboundary (front ++ [s]) back (by rw [hsplit, append_cons_eq_snoc])
  · intro row hrow d hd
    obtain ⟨front, s, back, hsplit, hmeans, hoffset, -⟩ := statement_of_row h hrow
    have hexists := hss s (by simp [hsplit])
    rw [hd] at hmeans
    generalize s.action = action at hmeans hexists
    cases hmeans with
    | emit => exact absurd rfl (hexists.2 d)
    | jump hmarked hsum =>
      obtain ⟨before, m, after, hmark, -, rfl⟩ := hmarked
      exact ⟨_, by rw [hoffset, List.nil_append]; exact hsum, hboundary _ _ hmark⟩

/-- What assembling makes of a source is tiled by its rows. -/
theorem tiled_of_assemble {source : String} {p : Program} (h : assemble source = .ok p) :
    Tiled p := by
  obtain ⟨ss, hss, hlink⟩ := bind_eq_ok_iff.mp h
  have hlinked := link_spec ss
  rw [hlink] at hlinked
  cases hlinked with
  | program hnames hjumps hrows => exact tiled_of_compiled (registers_of_parse hss) hrows

end Ledboard.Assembly
