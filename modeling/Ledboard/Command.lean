/-
# Commands

A message of a client is a tag and a body.  Four tags paint the display and flush it once:

* `B`, a bitmap: bit `i` of the body, lowest bit of a byte first, lights LED `i` white or not;
* `M`, a gray level for each LED;
* `C`, a packed colour for each LED;
* `T`, three bytes of red, green and blue for each LED.

Two tags keep a program: `u` empties the program store and `U` appends the body to it.  Any other
message is ignored.  A body that is too short leaves the other LEDs as they are, and what is too
long is dropped.
-/
import Ledboard.Display
import Ledboard.Log
import Ledboard.ProgramStore

namespace Ledboard

/-- What a message asks for. -/
inductive Command where
  | bitmap (body : List UInt8)
  | levels (body : List UInt8)
  | palette (body : List UInt8)
  | triples (body : List UInt8)
  | resetStore
  | appendStore (body : List UInt8)
  | other
  deriving DecidableEq, Repr

/-- What a command did. -/
inductive Effect where
  /-- painted that many LEDs and flushed -/
  | display (leds : Nat)
  /-- emptied the program store -/
  | storeReset
  /-- appended that many bytes to the program store -/
  | storeAppend (bytes : Nat)
  /-- nothing -/
  | ignored
  deriving DecidableEq, Repr

/-- The written form of an effect. -/
def Effect.describe : Effect → String
  | .display leds => "Display \x7b leds: " ++ Text.decimal leds ++ " \x7d"
  | .storeReset => "StoreReset"
  | .storeAppend bytes => "StoreAppend \x7b bytes: " ++ Text.decimal bytes ++ " \x7d"
  | .ignored => "Ignored"

/-- What clients can change: the display and the files. -/
structure Board where
  display : Display
  files : FileTree
  deriving DecidableEq

/-! ## 1. Colours -/

/-- The colour in one byte.  Its channels take every third bit and share some of them, so that
not every colour can be packed. -/
def unpackColor (packed : UInt8) : Rgb :=
  ⟨packed &&& 0x84, (packed &&& 0x52) <<< 1, (packed &&& 0x29) <<< 2⟩

/-- The bits of a body, lowest bit of a byte first. -/
def bits (body : List UInt8) : List Bool :=
  body.flatMap (fun b => (List.range 8).map b.toNat.testBit)

/-- The colours of complete triples. -/
def tripleColors : List UInt8 → List Rgb
  | r :: g :: b :: rest => ⟨r, g, b⟩ :: tripleColors rest
  | _ => []

namespace Command

/-- The command that a tag and a body spell. -/
def ofTag (tag : UInt8) (body : List UInt8) : Command :=
  match tag.toNat with
  | 66 => .bitmap body
  | 77 => .levels body
  | 67 => .palette body
  | 84 => .triples body
  | 117 => .resetStore
  | 85 => .appendStore body
  | _ => .other

/-- The command of a message. -/
def ofMessage : List UInt8 → Command
  | [] => .other
  | tag :: body => ofTag tag body

/-- The colours that a command gives to the first LEDs of a chain, if it is about the display. -/
def colors? (leds : Nat) : Command → Option (List Rgb)
  | .bitmap body =>
    some (((bits body).take leds).map (fun lit => if lit then Rgb.white else Rgb.off))
  | .levels body => some ((body.take leds).map Rgb.gray)
  | .palette body => some ((body.take leds).map unpackColor)
  | .triples body => some ((tripleColors body).take leds)
  | _ => none

/-! ## 2. Execution -/

/-- Carries out a command.  Where the store fails nothing changes. -/
def run (c : Command) (store : ProgramStore) (board : Board) : Except StoreError (Effect × Board) :=
  match c.colors? board.display.ledCount with
  | some colors =>
    .ok (.display colors.length, { board with display := (board.display.paint colors).flush })
  | none =>
    match c with
    | .resetStore =>
      (store.truncate board.files).map (fun files => (.storeReset, { board with files := files }))
    | .appendStore body =>
      (store.append board.files body).map
        (fun files => (.storeAppend body.length, { board with files := files }))
    | _ => .ok (.ignored, board)

end Command

/-- Carries out a message. -/
def Board.dispatch (board : Board) (store : ProgramStore) (message : List UInt8) :
    Except StoreError (Effect × Board) :=
  (Command.ofMessage message).run store board

/-- The report of a message that was carried out.  An empty message is not reported. -/
def commandEvents (message : List UInt8) (effect : Effect) : List Log.Event :=
  match message with
  | [] => []
  | tag :: _ =>
    [⟨.debug, "skc_firmware::router", "command",
      [("tag", String.singleton (Char.ofNat tag.toNat)),
        ("len", Text.decimal message.length),
        ("routed", effect.describe)]⟩]

end Ledboard
