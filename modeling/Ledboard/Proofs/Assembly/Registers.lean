/-
# Every register of a source exists

A word of the source is a register only if its number is at most 31, and no other rule makes
registers.  So a token, and with it a statement, never names a register that the processor does
not have (`registers_of_parse`), and what a statement emits can be read back by the processor.
-/
import Ledboard.Proofs.Assembly.Grammar
import Ledboard.Proofs.Encoding
import Ledboard.Proofs.Numerals

namespace Ledboard

namespace Assembly

open Instruction (registerCount)

/-! ## 1. Tokens -/

/-- A lexeme that names no register, or one that exists. -/
def Lexeme.Exists : Lexeme → Prop
  | .register r => r.toNat < registerCount
  | _ => True

/-- A word is a register only if its number is below their count. -/
theorem exists_of_isWord {word : List Char} {l : Lexeme} (h : IsWord word l) : l.Exists := by
  cases h with
  | keyword => trivial
  | name => trivial
  | @register digits number hword hdigits hnumber =>
    have hle : number ≤ registerCount - 1 := Text.valueUpTo?_le hnumber
    have hlt : number < registerCount := Nat.lt_of_le_of_lt hle (by decide)
    simp only [Lexeme.Exists, UInt8.toNat_ofNat']
    exact Nat.lt_of_le_of_lt (Nat.mod_le _ _) hlt

theorem exists_of_lexes {more : Nat} {c : Char} {rest : List Char} {l : Lexeme}
    (h : Lexes c rest l more) : l.Exists := by
  cases h with
  | directive _ _ hl => rcases hl with ⟨-, rfl⟩ | ⟨-, rfl⟩ <;> trivial
  | number _ _ hl =>
    cases hl
    trivial
  | word _ _ hl => exact exists_of_isWord hl

/-- No token of a source names a register that does not exist. -/
theorem exists_of_scanned {position : Nat} {cs : List Char} {ts : List Token}
    (h : Scanned position cs ts) : ∀ t ∈ ts, t.lexeme.Exists := by
  induction h with
  | nil => exact List.forall_mem_nil _
  | blank _ _ ih => exact ih
  | comment _ _ _ ih => exact ih
  | token h _ ih => exact List.forall_mem_cons.mpr ⟨exists_of_lexes h, ih⟩

/-! ## 2. Statements -/

/-- A statement that names no register, or one that exists.  An instruction that it emits as it
stands can be read back, and is no jump. -/
def Action.Exists : Action → Prop
  | .emit i => i.Canonical ∧ ∀ d, i ≠ .jumpIfLess d
  | .push (.number r) | .pop (.number r) | .nameRegister _ r => r.toNat < registerCount
  | _ => True

theorem exists_of_plain {l : Lexeme} {i : Instruction} (h : l.form? = some (.plain i)) :
    (Action.emit i).Exists := by
  unfold Lexeme.form? at h
  split at h <;> simp only [Option.some.injEq, Form.plain.injEq, reduceCtorEq] at h
  all_goals exact h ▸ ⟨trivial, by simp⟩

theorem exists_of_pushOperand? {l : Lexeme} {action : Action} (hl : l.Exists)
    (h : pushOperand? l = some action) : action.Exists := by
  cases l with
  | number value =>
    rw [pushOperand?, Option.some.injEq] at h
    exact h ▸ ⟨trivial, by simp⟩
  | register number =>
    rw [pushOperand?, Option.some.injEq] at h
    exact h ▸ hl
  | name text =>
    rw [pushOperand?, Option.some.injEq] at h
    exact h ▸ trivial
  | _ => exact absurd h (by simp [pushOperand?])

theorem exists_of_popOperand? {l : Lexeme} {action : Action} (hl : l.Exists)
    (h : popOperand? l = some action) : action.Exists := by
  cases l with
  | register number =>
    rw [popOperand?, Option.some.injEq] at h
    exact h ▸ hl
  | name text =>
    rw [popOperand?, Option.some.injEq] at h
    exact h ▸ trivial
  | _ => exact absurd h (by simp [popOperand?])

theorem exists_of_name? (make : String → Action) (hmake : ∀ name, (make name).Exists) {l : Lexeme}
    {action : Action} (h : l.name?.map make = some action) : action.Exists := by
  obtain ⟨name, -, rfl⟩ := Option.map_eq_some_iff.mp h
  exact hmake name

/-- What an operation makes of its operand names no other register than the operand. -/
theorem exists_of_unary {l operand : Lexeme} {expected : Expected} {read : Lexeme → Option Action}
    {action : Action} (hl : l.form? = some (.unary expected read)) (hoperand : operand.Exists)
    (h : read operand = some action) : action.Exists := by
  rcases read_of_unary hl with rfl | rfl | rfl | rfl
  · exact exists_of_pushOperand? hoperand h
  · exact exists_of_popOperand? hoperand h
  · exact exists_of_name? .jump (fun _ => trivial) h
  · exact exists_of_name? .here (fun _ => trivial) h

theorem exists_of_register? {l : Lexeme} {r : UInt8} (hl : l.Exists) (h : l.register? = some r) :
    r.toNat < registerCount := by
  unfold Lexeme.register? at h
  split at h
  · rw [Option.some.injEq] at h
    exact h ▸ hl
  · exact absurd h (by simp)

/-- A statement names no other register than its tokens. -/
theorem exists_of_spells {parts : List Token} {s : Statement} (h : Spells parts s)
    (hparts : ∀ t ∈ parts, t.lexeme.Exists) : s.action.Exists := by
  cases h with
  | plain h => exact exists_of_plain h
  | @unary head operand expected read action h hread =>
    exact exists_of_unary h (hparts operand (by simp)) hread
  | @naming head name register text number h hname hregister =>
    exact exists_of_register? (hparts register (by simp)) hregister

theorem exists_of_grouped {ts : List Token} {ss : List Statement} (h : Grouped ts ss)
    (hts : ∀ t ∈ ts, t.lexeme.Exists) : ∀ s ∈ ss, s.action.Exists := by
  induction h with
  | nil => exact List.forall_mem_nil _
  | cons h _ ih =>
    rw [List.forall_mem_append] at hts
    exact List.forall_mem_cons.mpr ⟨exists_of_spells h hts.1, ih hts.2⟩

/-- **Every register that a source names exists.** -/
theorem registers_of_parse {source : String} {ss : List Statement} (h : parse source = .ok ss) :
    ∀ s ∈ ss, s.action.Exists := by
  obtain ⟨ts, hts, hgrouped⟩ := parse_eq_ok_iff.mp h
  exact exists_of_grouped hgrouped (exists_of_scanned (tokens_eq_ok_iff.mp hts))

end Assembly

end Ledboard
