/-
# The log

What the board reports while it works is a list of events.  Each has a level, the part of the
board that it is about, a message and named values.  A reader asks for a least level and gets the
lines of the events that have it or a more severe one.

Messages repeat what a client or a file name brought in, so that control characters on which a
terminal might act are written out in them; the named values stand as they are.
-/
import Ledboard.Text.Numeral

namespace Ledboard.Log

/-- How severe an event is. -/
inductive Level where
  | trace
  | debug
  | info
  | warn
  deriving DecidableEq, Repr

namespace Level

/-- The place of a level among the others. -/
def severity : Level → Nat
  | .trace => 0
  | .debug => 1
  | .info => 2
  | .warn => 3

/-- A level in a line, five characters wide. -/
def label : Level → String
  | .trace => "TRACE"
  | .debug => "DEBUG"
  | .info => " INFO"
  | .warn => " WARN"

/-- The level of a name, in any case. -/
def ofName? (name : String) : Option Level :=
  match name.toLower with
  | "trace" => some .trace
  | "debug" => some .debug
  | "info" => some .info
  | "warn" => some .warn
  | _ => none

/-- Whether events of a level are wanted by a reader who asks for a least level. -/
def passes (least level : Level) : Bool := decide (least.severity ≤ level.severity)

end Level

/-! ## 1. Events -/

/-- One report: what happened, and named values that belong to it. -/
structure Event where
  level : Level
  target : String
  message : String
  fields : List (String × String)
  deriving DecidableEq, Repr

/-! ## 2. Lines -/

/-- Whether a terminal might act on a control character instead of showing it: bell, backspace,
form feed, escape, delete, and the controls from U+0080 on. -/
def isTerminalControl (c : Char) : Bool :=
  [0x07, 0x08, 0x0c, 0x1b, 0x7f].contains c.toNat || (0x80 ≤ c.toNat && c.toNat ≤ 0x9f)

/-- A character of a message.  One that a terminal might act on is written by its number. -/
def shown (c : Char) : String :=
  if !isTerminalControl c then String.singleton c
  else if c.toNat < 0x80 then "\\x" ++ Text.twoHexDigits c.toNat
  else "\\u\x7b" ++ Text.hexDigits c.toNat ++ "\x7d"

/-- A named value behind a message, as it is. -/
def shownField (field : String × String) : String := " " ++ field.1 ++ "=" ++ field.2

/-- The text of an event. -/
def Event.text (e : Event) : String :=
  e.level.label ++ " " ++ e.target ++ ": " ++ String.join (e.message.toList.map shown)
    ++ String.join (e.fields.map shownField)

/-- A line without a carriage return at its end. -/
def dropReturn (line : List Char) : List Char :=
  if line.getLast? = some '\r' then line.dropLast else line

/-- The lines of an event.  There is one unless a value holds a line feed. -/
def Event.lines (e : Event) : List String :=
  (e.text.toList.splitOn '\n').map (fun line => String.ofList (dropReturn line))

/-- The lines of the events that a reader wants. -/
def lines (least : Level) (events : List Event) : List String :=
  (events.filter (fun e => least.passes e.level)).flatMap Event.lines

end Ledboard.Log
