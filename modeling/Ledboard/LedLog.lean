/-
# LEDs in the log

Without a LED chain a flushed frame is reported: one line of counts, and one line for each row
of the frame, in which a dot is a dark LED and a `#` a lit one.
-/
import Ledboard.Display
import Ledboard.Log

namespace Ledboard.LedLog

/-- The part of the board that these reports are about. -/
def target : String := "skc::leds"

/-- A LED in a row. -/
def cell (c : Rgb) : Char := if c = Rgb.off then '.' else '#'

/-- Cuts LEDs into rows of a width; a width of zero counts as one. -/
def rows (width : Nat) : List Rgb → List (List Rgb)
  | [] => []
  | c :: cs => (c :: cs.take (width - 1)) :: rows width (cs.drop (width - 1))
termination_by cells => cells.length
decreasing_by
  simp only [List.length_drop, List.length_cons]
  omega

/-- How many LEDs of a frame are lit. -/
def litCount (frame : Frame) : Nat := frame.toList.countP (fun c => decide (c ≠ Rgb.off))

/-- The counts of a frame that was flushed as the `n`th. -/
def summary (n : Nat) (frame : Frame) : Log.Event :=
  ⟨.debug, target, "frame",
    [("flush", Text.decimal n), ("lit", Text.decimal (litCount frame)),
      ("leds", Text.decimal frame.size)]⟩

/-- A row of a frame. -/
def rowEvent (row : Nat) (cells : List Rgb) : Log.Event :=
  ⟨.trace, target, String.ofList (cells.map cell), [("row", Text.decimal row)]⟩

/-- The reports of a frame that was flushed as the `n`th. -/
def events (width n : Nat) (frame : Frame) : List Log.Event :=
  summary n frame :: (rows width frame.toList).mapIdx rowEvent

/-- The reports of what a display flushed last. -/
def latest (width : Nat) (d : Display) : List Log.Event :=
  match d.shown with
  | none => []
  | some frame => events width d.flushes frame

end Ledboard.LedLog
