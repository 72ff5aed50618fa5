/-
# The display

A chain of LEDs shows a *frame*, one colour per LED.  Changing a colour touches the frame only;
a *flush* hands the whole frame to the chain.  The display remembers how often it was flushed
and which frame it handed over last, so that what is lit can be compared with what is stored.

On the bus the display is a window of words.  Word 0 is reserved and word `1 + i` is LED `i`,
as one unused byte and the three colour bytes.  Writing such a word sets one LED and flushes
at once; an offset inside a word counts for that word.
-/
import Ledboard.Word
import Ledboard.Text.Numeral

namespace Ledboard

/-- A colour. -/
structure Rgb where
  r : UInt8
  g : UInt8
  b : UInt8
  deriving DecidableEq, Repr, Inhabited

namespace Rgb

/-- No light. -/
def off : Rgb := ⟨0, 0, 0⟩

/-- The same level on all three channels. -/
def gray (level : UInt8) : Rgb := ⟨level, level, level⟩

/-- All light. -/
def white : Rgb := gray 255

/-- The three bytes of a colour. -/
def toList (c : Rgb) : List UInt8 := [c.r, c.g, c.b]

/-- The colour of a word's last three bytes. -/
def ofWord (w : Word) : Rgb := ⟨w.b1, w.b2, w.b3⟩

/-- A colour behind an unused byte. -/
def toWord (c : Rgb) : Word := ⟨0, c.r, c.g, c.b⟩

end Rgb

/-- One colour per LED. -/
abbrev Frame := Array Rgb

/-- The bytes of a frame, LED by LED. -/
def Frame.bytes (frame : Frame) : List UInt8 := frame.toList.flatMap Rgb.toList

/-- A LED chain: the frame in memory, how often it was flushed, and the frame flushed last. -/
structure Display where
  frame : Frame
  flushes : Nat
  shown : Option Frame
  deriving DecidableEq, Inhabited

namespace Display

/-- A dark display that was never flushed. -/
def dark (leds : Nat) : Display := ⟨Array.replicate leds Rgb.off, 0, none⟩

/-- How many LEDs the chain has. -/
def ledCount (d : Display) : Nat := d.frame.size

/-- The colour of a LED, if there is such a LED. -/
def get? (d : Display) (led : Nat) : Option Rgb := d.frame[led]?

/-- Gives a LED a colour.  Nothing happens, and the answer is `false`, where there is no LED. -/
def set (d : Display) (led : Nat) (color : Rgb) : Bool × Display :=
  if led < d.ledCount then (true, { d with frame := d.frame.setIfInBounds led color })
  else (false, d)

/-- Gives every LED the same colour. -/
def fill (d : Display) (color : Rgb) : Display :=
  { d with frame := Array.replicate d.ledCount color }

/-- Gives the first LEDs the listed colours; colours beyond the chain are dropped. -/
def paint (d : Display) (colors : List Rgb) : Display :=
  { d with frame := go d.frame 0 colors }
where
  /-- Paints from one LED on. -/
  go : Frame → Nat → List Rgb → Frame
    | frame, _, [] => frame
    | frame, led, c :: cs => go (frame.setIfInBounds led c) (led + 1) cs

/-- Hands the frame to the chain. -/
def flush (d : Display) : Display :=
  { d with flushes := d.flushes + 1, shown := some d.frame }

/-- The LED whose word holds an offset of the window; the reserved word holds none. -/
def ledAt? (offset : Nat) : Option Nat :=
  match offset / Word.size with
  | 0 => none
  | n + 1 => some n

/-- The word at an offset of the window. -/
def read (d : Display) (offset : Nat) : Word :=
  match ledAt? offset with
  | none => Word.zero
  | some led =>
    match d.get? led with
    | none => Word.zero
    | some color => color.toWord

/-- Writes a word at an offset of the window. -/
def write (d : Display) (offset : Nat) (word : Word) : Display :=
  match ledAt? offset with
  | none => d
  | some led =>
    match d.set led (Rgb.ofWord word) with
    | (true, painted) => painted.flush
    | (false, same) => same

/-- The short form of a display. -/
def describe (d : Display) : String :=
  "Display \x7b leds: " ++ Text.decimal d.ledCount ++ ", .. \x7d"

@[simp] theorem size_paint_go (frame : Frame) (led : Nat) (colors : List Rgb) :
    (paint.go frame led colors).size = frame.size := by
  induction colors generalizing frame led with
  | nil => rfl
  | cons c cs ih => simp [paint.go, ih]

@[simp] theorem ledCount_paint (d : Display) (colors : List Rgb) :
    (d.paint colors).ledCount = d.ledCount := by
  simp [paint, ledCount]

@[simp] theorem ledCount_flush (d : Display) : d.flush.ledCount = d.ledCount := rfl

end Display

end Ledboard
