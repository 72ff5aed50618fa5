/-
# Sessions

After the upgrade a connection is a session.  Three things go on in it at the same time.

* The *message loop* reads the client's messages in order and carries each out.  It ends at the
  end of the stream, at the first frame that cannot be read, or when the program store fails, and
  the session ends with it.
* The *keepalive* sends a fixed message at its own period.
* The *notifier* samples the button at its own period and reports each change of its level; at
  the start the level counts as high, which is released.

A session is a state that takes in one event after another.  What it sends and what it reports
depends on the state and the event alone, so every interleaving of the three is a list of events.
When the client no longer receives, the first of the two senders that tries stops for good; the
message loop goes on.
-/
import Ledboard.Command
import Ledboard.Wire.Frame

namespace Ledboard

/-- Why a session ended. -/
inductive SessionEnd where
  /-- the stream ended, or a frame could not be read -/
  | fault (cause : Wire.Fault)
  /-- the program store failed -/
  | store (cause : StoreError)
  deriving DecidableEq, Repr

/-- The state of a session. -/
structure Session where
  peer : String
  /-- bytes that were received and belong to no complete message yet -/
  unread : List UInt8
  /-- the client sends no more -/
  inputEnded : Bool
  /-- the client receives no more -/
  deaf : Bool
  ended : Bool
  keepaliveOn : Bool
  notifierOn : Bool
  /-- the level of the button that was seen last -/
  lastHigh : Bool
  deriving DecidableEq, Repr

/-- What happens in a session. -/
inductive SessionEvent where
  /-- the client sent some bytes -/
  | receive (bytes : List UInt8)
  /-- the client closed its sending side -/
  | inputEnd
  /-- the client closed its receiving side -/
  | hangUp
  /-- the keepalive is due -/
  | ping
  /-- the notifier samples the button -/
  | poll (high : Bool)
  deriving DecidableEq, Repr

/-- What a session did: the frames that it sent and its reports. -/
structure Output where
  frames : List (List UInt8)
  events : List Log.Event
  deriving DecidableEq, Repr

namespace Output

/-- Nothing. -/
def none : Output := ⟨[], []⟩

/-- Reports only. -/
def report (events : List Log.Event) : Output := ⟨[], events⟩

/-- One thing after another. -/
def append (a b : Output) : Output := ⟨a.frames ++ b.frames, a.events ++ b.events⟩

end Output

namespace Session

/-! ## 1. Reports -/

/-- The part of the board that these reports are about. -/
def target : String := "skc_firmware::session"

/-- The report of a new session. -/
def connected (peer : String) : Log.Event :=
  ⟨.info, target, "ws connected", [("peer", peer)]⟩

/-- The report of the end of a session. -/
def ending (peer : String) : SessionEnd → Log.Event
  | .fault .closed => ⟨.info, target, "ws disconnected", [("peer", peer)]⟩
  | .fault cause =>
    if cause.isProtocolFault then
      ⟨.warn, target, "ws closed on protocol error: " ++ cause.message, [("peer", peer)]⟩
    else ⟨.warn, target, "ws session failed: " ++ cause.message, [("peer", peer)]⟩
  | .store cause =>
    ⟨.warn, target, "ws session failed: " ++ cause.message, [("peer", peer)]⟩

/-- The report of a change of the button. -/
def edge (high : Bool) : Log.Event :=
  ⟨.debug, target, "button edge", [("high", if high then "true" else "false")]⟩

/-- The report of a sender that met a client who no longer receives. -/
def stopped (sender : String) : Log.Event :=
  ⟨.debug, target, sender ++ " stopped: broken pipe", []⟩

/-! ## 2. The message loop -/

/-- What one turn of the message loop comes to. -/
inductive Turn where
  /-- no complete message is there yet -/
  | wait
  /-- the session ends -/
  | stop (cause : SessionEnd)
  /-- a message was carried out -/
  | took (message : List UInt8) (effect : Effect) (board : Board) (rest : List UInt8)

/-- One turn: reads a message and carries it out.  A stream that is not over may still complete a
message; a header that no message can have is refused as soon as it is there. -/
def turn (store : ProgramStore) (inputEnded : Bool) (board : Board) (unread : List UInt8) : Turn :=
  match Wire.Frame.read unread with
  | ⟨.ok message, rest⟩ =>
    match board.dispatch store message with
    | .error cause => .stop (.store cause)
    | .ok (effect, board) => .took message effect board rest
  | ⟨.error cause, _⟩ =>
    if inputEnded || cause.isProtocolFault then .stop (.fault cause) else .wait

/-- A turn that took a message left fewer bytes. -/
theorem length_rest_turn {store : ProgramStore} {inputEnded : Bool} {board after : Board}
    {unread message rest : List UInt8} {effect : Effect}
    (h : turn store inputEnded board unread = .took message effect after rest) :
    rest.length < unread.length := by
  unfold turn at h
  split at h
  · rename_i heq
    split at h
    · simp at h
    · simp only [Turn.took.injEq] at h
      obtain ⟨-, -, -, rfl⟩ := h
      exact Wire.Frame.length_rest_read heq
  · split at h <;> simp at h

/-- Where the message loop stands after all that is there was read. -/
structure Drained where
  board : Board
  unread : List UInt8
  ended : Option SessionEnd
  events : List Log.Event

/-- Takes turns until one waits or stops. -/
def drain (store : ProgramStore) (inputEnded : Bool) (board : Board) (unread : List UInt8) :
    Drained :=
  match _h : turn store inputEnded board unread with
  | .wait => ⟨board, unread, none, []⟩
  | .stop cause => ⟨board, [], some cause, []⟩
  | .took message effect board rest =>
    let later := drain store inputEnded board rest
    { later with events := commandEvents message effect ++ later.events }
termination_by unread.length
decreasing_by exact length_rest_turn (by assumption)

/-! ## 3. Events -/

/-- A session at its start. -/
def start (peer : String) : Session where
  peer := peer
  unread := []
  inputEnded := false
  deaf := false
  ended := false
  keepaliveOn := true
  notifierOn := true
  lastHigh := true

/-- The message of the keepalive. -/
def keepalive : List UInt8 := [0x5e, 0x50, 0x49, 0x4e, 0x47, 0x24]

/-- The report of the button's level. -/
def levelReport (high : Bool) : List UInt8 := [0x62, if high then 1 else 0]

/-- Sends a message of the board. -/
def send (message : List UInt8) : Output := ⟨(Wire.Frame.encode message).toOption.toList, []⟩

/-- Lets the message loop read what is there. -/
def readOn (s : Session) (store : ProgramStore) (board : Board) : Session × Board × Output :=
  let d := drain store s.inputEnded board s.unread
  let s := { s with unread := d.unread, ended := d.ended.isSome }
  (s, d.board, .report (d.events ++ (d.ended.map (ending s.peer)).toList))

/-- Takes in an event.  After its end a session does nothing any more. -/
def step (s : Session) (store : ProgramStore) (board : Board) (event : SessionEvent) :
    Session × Board × Output :=
  if s.ended then (s, board, .none)
  else
    match event with
    | .receive bytes =>
      if s.inputEnded then (s, board, .none)
      else { s with unread := s.unread ++ bytes }.readOn store board
    | .inputEnd =>
      if s.inputEnded then (s, board, .none)
      else { s with inputEnded := true }.readOn store board
    | .hangUp => ({ s with deaf := true }, board, .none)
    | .ping =>
      if !s.keepaliveOn then (s, board, .none)
      else if s.deaf then ({ s with keepaliveOn := false }, board, .report [stopped "keepalive"])
      else (s, board, send keepalive)
    | .poll high =>
      if !s.notifierOn || high == s.lastHigh then (s, board, .none)
      else if s.deaf then
        ({ s with lastHigh := high, notifierOn := false }, board,
          .report [edge high, stopped "button notifier"])
      else ({ s with lastHigh := high }, board, (Output.report [edge high]).append
        (send (levelReport high)))

/-- Whether the keepalive has something to do when it is due. -/
def pings (s : Session) : Bool := !s.ended && s.keepaliveOn

/-- Whether the notifier has something to do when it is due and finds the button at a level. -/
def notices (s : Session) (high : Bool) : Bool :=
  !s.ended && (s.notifierOn && high != s.lastHigh)

/-- A keepalive that has nothing to do changes nothing. -/
theorem step_ping_of_not_pings {s : Session} (store : ProgramStore) (board : Board)
    (h : s.pings = false) : s.step store board .ping = (s, board, .none) := by
  unfold pings at h
  unfold step
  split
  · rfl
  · simp_all

/-- A notifier that has nothing to do changes nothing. -/
theorem step_poll_of_not_notices {s : Session} {high : Bool} (store : ProgramStore) (board : Board)
    (h : s.notices high = false) : s.step store board (.poll high) = (s, board, .none) := by
  unfold notices at h
  unfold step
  split
  · rfl
  · simp_all

/-- Takes in events, one after another. -/
def run (s : Session) (store : ProgramStore) (board : Board) :
    List SessionEvent → Session × Board × Output
  | [] => (s, board, .none)
  | event :: rest =>
    let (s, board, first) := s.step store board event
    let (s, board, later) := s.run store board rest
    (s, board, first.append later)

end Session

end Ledboard
