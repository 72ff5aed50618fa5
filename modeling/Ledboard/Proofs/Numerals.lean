/-
# Decimal numbers are read back

Numbers are written in decimal without leading zeros, and with a `-` if they are negative.  Digits
are read from the left, and the value must never exceed a limit on the way.  Since the value only
grows, it does so exactly if the number itself exceeds the limit, in every base and for any number
of digits (`valueUpTo?_eq`).  So what was written for a number is read as this number
(`valueUpTo?_toDigits`).
-/
import Ledboard.Text.Numeral

namespace Ledboard.Text

/-! ## 1. Writing -/

theorem toList_decimal (n : Nat) : (decimal n).toList = Nat.toDigits 10 n := by
  rw [← Nat.toList_repr]
  rfl

theorem toList_decimal_neg {n : Nat} (hn : 0 < n) :
    (decimal (-n)).toList = '-' :: Nat.toDigits 10 n := by
  rw [decimal, Int.toString_eq_repr, Int.repr_eq_if, if_neg (by omega), String.toList_append,
    Nat.toList_repr, Int.neg_neg, Int.toNat_natCast]
  rfl

theorem isDigit_toDigits (n : Nat) : ∀ c ∈ Nat.toDigits 10 n, c.isDigit = true := by
  intro c hc
  exact Nat.isDigit_of_mem_toDigits (by decide) (by decide) hc

/-- Only zero starts with a zero. -/
theorem exists_toDigits {n : Nat} (hn : 0 < n) :
    ∃ d ds, Nat.toDigits 10 n = d :: ds ∧ d ≠ '0' := by
  induction n using Nat.base_induction 10 (by decide) with
  | single n hlt =>
    refine ⟨n.digitChar, [], Nat.toDigits_of_lt_base hlt, ?_⟩
    rw [ne_eq, Nat.digitChar_eq_zero]
    omega
  | digit n digit hdigit hpos ih =>
    obtain ⟨d, ds, heq, hd⟩ := ih hpos
    refine ⟨d, ds ++ Nat.toDigits 10 digit, ?_, hd⟩
    rw [← Nat.toDigits_append_toDigits (by decide) hpos hdigit, heq, List.cons_append]

/-! ## 2. Reading -/

variable {base greatest value n : Nat} {overflow : NumeralError} {digits : List Char}

/-- Reading digits never goes past the greatest value allowed. -/
theorem readDigits_le (hvalue : value ≤ greatest)
    (h : readDigits base greatest overflow value digits = .ok n) : n ≤ greatest := by
  induction digits generalizing value with
  | nil =>
    rw [readDigits, Except.ok.injEq] at h
    exact h ▸ hvalue
  | cons c cs ih =>
    rw [readDigits] at h
    split at h
    · exact absurd h (by simp)
    · split at h
      · exact ih (by assumption) h
      · exact absurd h (by simp)

theorem valueUpTo?_le (h : valueUpTo? base greatest digits = some n) : n ≤ greatest := by
  unfold valueUpTo? at h
  cases hread : readDigits base greatest .tooLarge 0 digits with
  | error e => simp [hread, Except.toOption] at h
  | ok m =>
    simp only [hread, Except.toOption, Option.some.injEq] at h
    exact h ▸ readDigits_le (Nat.zero_le _) hread

theorem digitValue?_of_isDigit {c : Char} (h : c.isDigit = true) :
    digitValue? 10 c = some (c.toNat - 48) := by
  have hrange : '0' ≤ c ∧ c ≤ '9' := by
    obtain ⟨hlow, hhigh⟩ := (Bool.and_eq_true _ _).mp h
    exact ⟨of_decide_eq_true hlow, of_decide_eq_true hhigh⟩
  have hbound : c.toNat ≤ 57 := UInt32.le_iff_toNat_le.mp hrange.2
  simp only [digitValue?, if_pos hrange]
  rw [if_pos (by omega)]

/-- What digits are on top of a value, from the left, where each counts what `valueOf` says. -/
def addDigits (base : Nat) (valueOf : Char → Nat) (value : Nat) (digits : List Char) : Nat :=
  digits.foldl (fun n c => n * base + valueOf c) value

/-- Digits can only add to a value. -/
theorem le_addDigits (hbase : 0 < base) (valueOf : Char → Nat) (value : Nat)
    (digits : List Char) : value ≤ addDigits base valueOf value digits := by
  induction digits generalizing value with
  | nil => exact Nat.le_refl value
  | cons c cs ih =>
    have hmore : value ≤ value * base + valueOf c :=
      Nat.le_trans (Nat.le_mul_of_pos_right _ hbase) (Nat.le_add_right _ _)
    exact Nat.le_trans hmore (ih _)

theorem addDigits_eq_ofDigitChars (value : Nat) (digits : List Char) :
    addDigits 10 (fun c => c.toNat - 48) value digits = Nat.ofDigitChars 10 digits value := by
  simp only [addDigits, Nat.ofDigitChars, Nat.mul_comm 10]
  rfl

/-- **Digits are read as their value**, unless that exceeds the limit. -/
theorem readDigits_eq {valueOf : Char → Nat} (hbase : 0 < base)
    (hdigits : ∀ c ∈ digits, digitValue? base c = some (valueOf c)) (hvalue : value ≤ greatest) :
    readDigits base greatest overflow value digits =
      if addDigits base valueOf value digits ≤ greatest then
        .ok (addDigits base valueOf value digits)
      else .error overflow := by
  induction digits generalizing value with
  | nil => exact (if_pos hvalue).symm
  | cons c cs ih =>
    obtain ⟨hc, hcs⟩ := List.forall_mem_cons.mp hdigits
    have hnext : addDigits base valueOf value (c :: cs) =
        addDigits base valueOf (value * base + valueOf c) cs := rfl
    simp only [readDigits, hc, hnext]
    split
    · rename_i hle
      exact ih hcs hle
    · rename_i hlarge
      have hgrows := le_addDigits hbase valueOf (value * base + valueOf c) cs
      rw [if_neg (fun hle => hlarge (Nat.le_trans hgrows hle))]

theorem valueUpTo?_eq {valueOf : Char → Nat} (hbase : 0 < base)
    (hdigits : ∀ c ∈ digits, digitValue? base c = some (valueOf c)) :
    valueUpTo? base greatest digits =
      if addDigits base valueOf 0 digits ≤ greatest then some (addDigits base valueOf 0 digits)
      else none := by
  rw [valueUpTo?, readDigits_eq hbase hdigits (Nat.zero_le _)]
  split <;> rfl

/-- **What was written for a number is read as this number.** -/
theorem valueUpTo?_toDigits (h : n ≤ greatest) :
    valueUpTo? 10 greatest (Nat.toDigits 10 n) = some n := by
  have hvalue : addDigits 10 (fun c => c.toNat - 48) 0 (Nat.toDigits 10 n) = n := by
    rw [addDigits_eq_ofDigitChars]
    exact Nat.ofDigitChars_ten_toDigits
  have hdigits : ∀ c ∈ Nat.toDigits 10 n, digitValue? 10 c = some (c.toNat - 48) :=
    fun c hc => digitValue?_of_isDigit (isDigit_toDigits n c hc)
  rw [valueUpTo?_eq (by decide) hdigits, hvalue, if_pos h]

end Ledboard.Text
