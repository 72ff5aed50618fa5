/-
# Tokens

`tokens` cuts source text into tokens, each as long as it can be.  Between tokens stand ASCII
white space and comments, which run from `//` to the end of the line and may hold any
characters; tokens themselves are ASCII.  Nothing needs to separate two tokens.

A number is an optional `-`, then decimal digits, `0x` and hexadecimal digits, or `0b` and
binary digits.  Its value must lie between -2^31 and 2^32 - 1; it then stands for its 32-bit
pattern.  A register is an `i` and a decimal number without leading zeros.
-/
import Ledboard.Assembly.Error
import Ledboard.Text.Blank

namespace Ledboard.Assembly

/-! ## 1. Words -/

/-- Whether a name may start with a character. -/
def isWordStart (c : Char) : Bool := c.isAlpha || c == '_'

/-- Whether a name may go on with a character. -/
def isWordPart (c : Char) : Bool := c.isAlphanum || c == '_'

/-- The digits of a word that is written like a register. -/
def registerDigits? (word : List Char) : Option (List Char) :=
  match word with
  | 'i' :: d :: ds =>
    if (d :: ds).all Char.isDigit && (ds.isEmpty || d != '0') then some (d :: ds) else none
  | _ => none

/-- What a word is: a keyword, else a register, else a name. -/
def wordLexeme (position : Nat) (word : List Char) : Except AssemblyError Lexeme :=
  let text := String.ofList word
  match Keyword.ofWord? text with
  | some keyword => .ok (.keyword keyword)
  | none =>
    match registerDigits? word with
    | none => .ok (.name text)
    | some digits =>
      match Text.valueUpTo? 10 (Instruction.registerCount - 1) digits with
      | some number => .ok (.register (UInt8.ofNat number))
      | none => .error (.registerOutOfRange position text)

/-! ## 2. Numbers -/

/-- The parts of a number's text. -/
structure Literal where
  /-- `-` or nothing -/
  sign : List Char
  /-- `0x`, `0b` or nothing -/
  radixMark : List Char
  base : Nat
  digits : List Char
  deriving DecidableEq, Repr

namespace Literal

/-- The longest literal at the start of a text, possibly without digits. -/
def ofChars (cs : List Char) : Literal :=
  let (sign, body) :=
    match cs with
    | '-' :: rest => (['-'], rest)
    | _ => ([], cs)
  match body with
  | '0' :: 'x' :: rest => ⟨sign, ['0', 'x'], 16, rest.takeWhile (Text.isDigitOf 16)⟩
  | '0' :: 'b' :: rest => ⟨sign, ['0', 'b'], 2, rest.takeWhile (Text.isDigitOf 2)⟩
  | _ => ⟨sign, [], 10, body.takeWhile (Text.isDigitOf 10)⟩

/-- The whole text. -/
def text (l : Literal) : List Char := l.sign ++ l.radixMark ++ l.digits

/-- The greatest magnitude that 32 bits hold: of an unsigned number, or of a negative one. -/
def limit (l : Literal) : Nat := if l.sign.isEmpty then 4294967295 else 2147483648

/-- The value, if 32 bits, signed or unsigned, hold it. -/
def value? (l : Literal) : Option Int :=
  (Text.valueUpTo? l.base l.limit l.digits).map
    (fun n => if l.sign.isEmpty then (n : Int) else -(n : Int))

end Literal

/-- The number that a literal is. -/
def numberLexeme (position : Nat) (literal : Literal) : Except AssemblyError Lexeme :=
  if literal.digits.isEmpty then .error (.unexpectedSymbol position)
  else
    match literal.value? with
    | some value => .ok (.number (Int32.ofInt value))
    | none => .error (.numberOutOfRange position (String.ofList literal.text))

/-! ## 3. The source as a whole -/

/-- The lexeme that starts with a character, and how many more characters it takes. -/
def lexemeAt (position : Nat) (c : Char) (rest : List Char) :
    Except AssemblyError (Lexeme × Nat) :=
  if c = '#' then
    let word := rest.takeWhile isWordPart
    if word = "name".toList then .ok (.nameDirective, word.length)
    else if word = "here".toList then .ok (.hereDirective, word.length)
    else .error (.unexpectedSymbol position)
  else if c.isDigit || c == '-' then
    let literal := Literal.ofChars (c :: rest)
    (numberLexeme position literal).map (fun lexeme => (lexeme, literal.text.length - 1))
  else if isWordStart c then
    let word := rest.takeWhile isWordPart
    (wordLexeme position (c :: word)).map (fun lexeme => (lexeme, word.length))
  else .error (.unexpectedSymbol position)

/-- How many bytes of UTF-8 the characters take. -/
def utf8Length (cs : List Char) : Nat := cs.foldr (fun c n => c.utf8Size + n) 0

/-- Cuts the rest of a source, which starts at `position`, behind the tokens already cut. -/
def tokensFrom (done : Array Token) (position : Nat) :
    List Char → Except AssemblyError (Array Token)
  | [] => .ok done
  | c :: rest =>
    if Text.isAsciiBlank c then tokensFrom done (position + 1) rest
    else if c = '/' ∧ rest.head? = some '/' then
      let comment := rest.takeWhile (· != '\n')
      tokensFrom done (position + 1 + utf8Length comment) (rest.drop comment.length)
    else
      match lexemeAt position c rest with
      | .error e => .error e
      | .ok (lexeme, more) =>
        tokensFrom (done.push ⟨lexeme, position, more + 1⟩) (position + more + 1)
          (rest.drop more)
termination_by cs => cs.length
decreasing_by
  all_goals simp only [List.length_drop, List.length_cons]; omega

/-- The tokens of a source. -/
def tokens (source : String) : Except AssemblyError (List Token) :=
  (tokensFrom #[] 0 source.toList).map Array.toList

end Ledboard.Assembly
