/-
# Sessions that share a board

Any number of sessions work on one display and one program store.  Their message loops take turns,
in whatever order: a turn reads one message of a session and carries it out, and nothing of another
session comes in between.  A schedule names, turn after turn, the session whose turn it is.

A session whose turn cannot be taken has ended and takes no turn any more; what its client sent
behind that point stays unread.
-/
import Ledboard.Session

namespace Ledboard

/-- The message loop of one session: what is unread of all that its client sends, and why it ended,
once it did. -/
structure MessageLoop where
  unread : List UInt8
  ended : Option SessionEnd
  deriving DecidableEq, Repr

/-- The message loops of several sessions, each under its name, and the board that they share. -/
structure Sessions (ι : Type) where
  board : Board
  loops : ι → MessageLoop

namespace Sessions

variable {ι : Type} [DecidableEq ι]

/-- Sessions at their start: the board, and all that the clients will send. -/
def start (board : Board) (streams : ι → List UInt8) : Sessions ι :=
  ⟨board, fun i => ⟨streams i, none⟩⟩

/-- Changes the message loop of one session. -/
def setLoop (s : Sessions ι) (i : ι) (loop : MessageLoop) : Sessions ι :=
  { s with loops := fun j => if j = i then loop else s.loops j }

/-- Ends a session. -/
def stop (s : Sessions ι) (i : ι) (cause : SessionEnd) : Sessions ι :=
  s.setLoop i { s.loops i with ended := some cause }

/-- One turn of a session, and the message that was carried out, if one was. -/
def turn (s : Sessions ι) (store : ProgramStore) (i : ι) : Option (List UInt8) × Sessions ι :=
  match (s.loops i).ended with
  | some _ => (none, s)
  | none =>
    match Session.turn store true s.board (s.loops i).unread with
    | .wait => (none, s)
    | .stop cause => (none, s.stop i cause)
    | .took message _ board rest => (some message, { s.setLoop i ⟨rest, none⟩ with board := board })

/-- Takes turns by a schedule.  The history is the messages that were carried out, in their order
and with the names of their sessions. -/
def run (s : Sessions ι) (store : ProgramStore) : List ι → List (ι × List UInt8) × Sessions ι
  | [] => ([], s)
  | i :: rest =>
    let (message, s) := s.turn store i
    let (history, s) := s.run store rest
    ((message.map (fun m => (i, m))).toList ++ history, s)

/-- The messages of one session in a history. -/
def messagesOf (i : ι) (history : List (ι × List UInt8)) : List (List UInt8) :=
  (history.filter (fun entry => decide (entry.1 = i))).map Prod.snd

end Sessions

end Ledboard
