/-
# Numbers as text

Output writes numbers in decimal, in decimal with an explicit sign, or in lower-case
hexadecimal after `0x`.  Input reads unsigned numbers in base 10 or 16 and a signed number in
base 10, and says why a text is refused.  Reading looks at ASCII digits only, allows one
leading `+`, and never wraps: it goes from the left, computes the value exactly, and of two
faults reports the one that comes first in the text.
-/

namespace Ledboard.Text

/-- Lower-case hexadecimal digits, without leading zeros. -/
def hexDigits (n : Nat) : String := String.ofList (Nat.toDigits 16 n)

/-- Hexadecimal after `0x`. -/
def hex (n : Nat) : String := "0x" ++ hexDigits n

/-- Hexadecimal with at least two digits. -/
def twoHexDigits (n : Nat) : String := (if n < 16 then "0" else "") ++ hexDigits n

/-- Hexadecimal after `0x`, with two digits for each value below 256. -/
def hexByte (b : UInt8) : String := "0x" ++ twoHexDigits b.toNat

/-- Decimal. -/
def decimal (n : Int) : String := toString n

/-- Decimal with a sign in front of every number, zero included. -/
def signed (n : Int) : String := if 0 ≤ n then "+" ++ decimal n else decimal n

/-- Why a text is no number of the wanted kind. -/
inductive NumeralError where
  /-- there is nothing to read -/
  | empty
  /-- some character is no digit of the base, or the sign stands alone -/
  | invalidDigit
  /-- the value lies above the greatest one allowed -/
  | tooLarge
  /-- the value lies below the least one allowed -/
  | tooSmall
  deriving DecidableEq, Repr

/-- The wording of the refusal. -/
def NumeralError.message : NumeralError → String
  | .empty => "cannot parse integer from empty string"
  | .invalidDigit => "invalid digit found in string"
  | .tooLarge => "number too large to fit in target type"
  | .tooSmall => "number too small to fit in target type"

/-- The value of an ASCII digit in a base up to 16; letters count in both cases. -/
def digitValue? (base : Nat) (c : Char) : Option Nat :=
  let v :=
    if '0' ≤ c ∧ c ≤ '9' then c.toNat - 48
    else if 'a' ≤ c ∧ c ≤ 'f' then c.toNat - 87
    else if 'A' ≤ c ∧ c ≤ 'F' then c.toNat - 55
    else 16
  if v < base then some v else none

/-- Whether a character is a digit of the base. -/
def isDigitOf (base : Nat) (c : Char) : Bool := (digitValue? base c).isSome

/-- Reads digits from the left on top of `value`, and stops at the first character that is no
digit or that takes the value past `greatest`; the second of these is reported as `overflow`. -/
def readDigits (base greatest : Nat) (overflow : NumeralError) :
    Nat → List Char → Except NumeralError Nat
  | value, [] => .ok value
  | value, c :: cs =>
    match digitValue? base c with
    | none => .error .invalidDigit
    | some d =>
      if value * base + d ≤ greatest then readDigits base greatest overflow (value * base + d) cs
      else .error overflow

/-- Reads a non-empty run of digits. -/
def readMagnitude (base greatest : Nat) (overflow : NumeralError) (digits : List Char) :
    Except NumeralError Nat :=
  if digits.isEmpty then .error .invalidDigit else readDigits base greatest overflow 0 digits

/-- The value of a run of digits, if it is at most `greatest`. -/
def valueUpTo? (base greatest : Nat) (digits : List Char) : Option Nat :=
  (readDigits base greatest .tooLarge 0 digits).toOption

/-- Reads an unsigned number that is at most `greatest`. -/
def readUnsigned (base greatest : Nat) (text : List Char) : Except NumeralError Nat :=
  match text with
  | [] => .error .empty
  | '+' :: digits => readMagnitude base greatest .tooLarge digits
  | digits => readMagnitude base greatest .tooLarge digits

/-- Reads a signed decimal number that lies between `-least` and `greatest`. -/
def readSigned (least greatest : Nat) (text : List Char) : Except NumeralError Int :=
  match text with
  | [] => .error .empty
  | '-' :: digits => (readMagnitude 10 least .tooSmall digits).map (fun n => -(n : Int))
  | '+' :: digits => (readMagnitude 10 greatest .tooLarge digits).map (fun n => (n : Int))
  | digits => (readMagnitude 10 greatest .tooLarge digits).map (fun n => (n : Int))

end Ledboard.Text
