/-
# Socket addresses

An address to listen on is written `a.b.c.d:port`, or `[groups]:port` with an optional `%zone`
behind the groups.  The four numbers of the first form have at most three digits and no leading
zeros.  The second form has eight groups of at most four hexadecimal digits; `::` stands once
for one or more groups of zeros, and the last two groups may be written as four numbers.

An address is printed in its shortest form: lower case, without leading zeros, and with `::` for
the first of the longest runs of at least two zero groups.
-/
import Ledboard.Text.Numeral

namespace Ledboard

/-- An address and a port to listen on. -/
inductive SocketAddress where
  /-- four bytes -/
  | v4 (octets : List Nat) (port : Nat)
  /-- eight 16-bit groups, and a zone that is zero if there is none -/
  | v6 (groups : List Nat) (zone port : Nat)
  deriving DecidableEq, Repr

namespace SocketAddress

/-! ## 1. Reading -/

/-- The digits at the start of a text and what follows them. -/
def digitRun (base : Nat) (cs : List Char) : List Char × List Char :=
  (cs.takeWhile (Text.isDigitOf base), cs.dropWhile (Text.isDigitOf base))

/-- A decimal number from 0 to 255 with at most three digits and no leading zeros. -/
def readOctet (cs : List Char) : Option (Nat × List Char) :=
  let (digits, rest) := digitRun 10 cs
  if digits.isEmpty ∨ 3 < digits.length ∨ (digits.head? = some '0' ∧ 1 < digits.length) then none
  else (Text.valueUpTo? 10 255 digits).map (fun value => (value, rest))

/-- At most four hexadecimal digits. -/
def readGroup (cs : List Char) : Option (Nat × List Char) :=
  let (digits, rest) := digitRun 16 cs
  if digits.isEmpty ∨ 4 < digits.length then none
  else (Text.valueUpTo? 16 65535 digits).map (fun value => (value, rest))

/-- A decimal number, with any leading zeros, that is at most `greatest`. -/
def readBounded (greatest : Nat) (cs : List Char) : Option (Nat × List Char) :=
  let (digits, rest) := digitRun 10 cs
  if digits.isEmpty then none
  else (Text.valueUpTo? 10 greatest digits).map (fun value => (value, rest))

/-- Takes one character off a text. -/
def skip (c : Char) : List Char → Option (List Char)
  | [] => none
  | d :: rest => if d = c then some rest else none

/-- Four numbers with dots between them. -/
def readOctets (cs : List Char) : Option (List Nat × List Char) := do
  let (a, cs) ← readOctet cs
  let (b, cs) ← readOctet (← skip '.' cs)
  let (c, cs) ← readOctet (← skip '.' cs)
  let (d, cs) ← readOctet (← skip '.' cs)
  return ([a, b, c, d], cs)

/-- The colon before a group, which the first group does not have. -/
def skipColon (first : Bool) (cs : List Char) : Option (List Char) :=
  if first then some cs else skip ':' cs

/-- At most `left` groups with colons between them, the last two perhaps written as four
numbers; whether they were, and what follows. -/
def readGroups (first : Bool) : Nat → List Char → List Nat × Bool × List Char
  | 0, cs => ([], false, cs)
  | left + 1, cs =>
    match (if left = 0 then none else (skipColon first cs).bind readOctets) with
    | some ([a, b, c, d], rest) => ([a * 256 + b, c * 256 + d], true, rest)
    | _ =>
      match (skipColon first cs).bind readGroup with
      | some (group, rest) =>
        let (groups, dotted, rest) := readGroups false left rest
        (group :: groups, dotted, rest)
      | none => ([], false, cs)

/-- Eight groups, some of them perhaps left out for `::`. -/
def readV6 (cs : List Char) : Option (List Nat × List Char) :=
  let (front, dotted, rest) := readGroups true 8 cs
  if front.length = 8 then some (front, rest)
  else if dotted then none
  else do
    let rest ← skip ':' (← skip ':' rest)
    let (back, _, rest) := readGroups true (7 - front.length) rest
    return (front ++ List.replicate (8 - front.length - back.length) 0 ++ back, rest)

/-- The zone behind a percent sign; where there is none nothing is taken. -/
def readZone (cs : List Char) : Nat × List Char :=
  match (skip '%' cs).bind (readBounded 4294967295) with
  | some (zone, rest) => (zone, rest)
  | none => (0, cs)

/-- A port behind a colon, at the end of the text. -/
def readPort (cs : List Char) : Option Nat := do
  let (port, rest) ← readBounded 65535 (← skip ':' cs)
  if rest.isEmpty then some port else none

/-- The address that a text is. -/
def read? (text : List Char) : Option SocketAddress :=
  match readOctets text with
  | some (octets, rest) => (readPort rest).map (.v4 octets)
  | none => do
    let (groups, rest) ← readV6 (← skip '[' text)
    let (zone, rest) := readZone rest
    let port ← readPort (← skip ']' rest)
    return .v6 groups zone port

/-! ## 2. Printing -/

/-- Four numbers with dots between them. -/
def dotted (octets : List Nat) : String :=
  ".".intercalate (octets.map (fun (n : Nat) => Text.decimal n))

/-- Groups with colons between them. -/
def colons (groups : List Nat) : String := ":".intercalate (groups.map Text.hexDigits)

/-- The length of the run of zeros at the start of a list. -/
def zeroRun (groups : List Nat) : Nat := (groups.takeWhile (· == 0)).length

/-- The place and the length of the first of the longest runs of zeros, among those that start
at `place` or later. -/
def longestZeros (place : Nat) : List Nat → Nat × Nat
  | [] => (place, 0)
  | g :: rest =>
    let here := zeroRun (g :: rest)
    let later := longestZeros (place + 1) rest
    if later.2 ≤ here then (place, here) else later

/-- Eight groups in their shortest form. -/
def v6Text (groups : List Nat) : String :=
  match groups with
  | [0, 0, 0, 0, 0, 0xffff, high, low] =>
    "::ffff:" ++ dotted [high / 256, high % 256, low / 256, low % 256]
  | _ =>
    let (start, length) := longestZeros 0 groups
    if 1 < length then colons (groups.take start) ++ "::" ++ colons (groups.drop (start + length))
    else colons groups

/-- An address in its shortest form. -/
def text : SocketAddress → String
  | .v4 octets port => dotted octets ++ ":" ++ Text.decimal port
  | .v6 groups zone port =>
    "[" ++ v6Text groups ++ (if zone = 0 then "" else "%" ++ Text.decimal zone) ++ "]:"
      ++ Text.decimal port

end SocketAddress

end Ledboard
