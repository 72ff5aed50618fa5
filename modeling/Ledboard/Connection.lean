/-
# Connections

A client that connects sends a request.  A fetch of `/ws` with a key is upgraded to a session, a
fetch of `/` gets the index page, and any other request is told that there is no such path.  What
goes wrong before the upgrade is answered with its reason; only a client that goes away before
its request is complete gets no answer.
-/
import Ledboard.Boot
import Ledboard.Session
import Ledboard.Wire.Request
import Ledboard.Wire.Response

namespace Ledboard

/-- What a board shows to clients: the page and the file that programs are kept in. -/
structure Site where
  indexPage : String
  store : ProgramStore
  deriving DecidableEq, Repr

/-- What a request leads to. -/
inductive Answer where
  /-- nothing is sent -/
  | silence
  /-- one response, and the connection is closed -/
  | reply (response : Wire.Response)
  /-- one response, and a session that starts with the unread bytes -/
  | upgrade (response : Wire.Response) (unread : List UInt8)
  deriving DecidableEq, Repr

namespace Connection

/-- The path that is upgraded to a session. -/
def sessionPath : String := "/ws"

/-- The path of the index page. -/
def pagePath : String := "/"

/-- The response to a fetch of the index page. -/
def pageResponse (files : FileTree) (path : String) : Wire.Response :=
  match files.readText path with
  | .ok page => .html page
  | .error cause => .internalError (ProgramError.unreadable path cause).message

/-- What the bytes of a client lead to, if nothing follows them. -/
def answer (site : Site) (files : FileTree) (bytes : List UInt8) : Answer :=
  match Wire.Request.read bytes with
  | ⟨.error .closed, _⟩ => .silence
  | ⟨.error fault, _⟩ => .reply (.internalError fault.message)
  | ⟨.ok request, rest⟩ =>
    if request.isGet sessionPath then
      match Wire.Response.upgrade request.headers with
      | .ok response => .upgrade response rest
      | .error fault => .reply (.internalError fault.message)
    else if request.isGet pagePath then .reply (pageResponse files site.indexPage)
    else .reply .notFound

/-- What a whole exchange came to: the response, the frames behind it, the board and the reports. -/
structure Exchange where
  response : Option Wire.Response
  frames : List (List UInt8)
  board : Board
  events : List Log.Event

/-- All bytes that the client got. -/
def Exchange.bytes (e : Exchange) : List UInt8 :=
  (e.response.map Wire.Response.bytes).getD [] ++ e.frames.flatten

/-- The exchange with a client that sends a request.  If it was upgraded, the session starts where
some bytes are unread, and what happens in it may depend on them. -/
def talk (site : Site) (peer : String) (board : Board) (request : List UInt8)
    (conversation : List UInt8 → List SessionEvent) : Exchange :=
  match answer site board.files request with
  | .silence => ⟨none, [], board, []⟩
  | .reply response => ⟨some response, [], board, []⟩
  | .upgrade response unread =>
    let (_, board, output) := (Session.start peer).run site.store board (conversation unread)
    ⟨some response, output.frames, board, Session.connected peer :: output.events⟩

/-- The exchange with a client that sends a request, waits for the first keepalive if it was
upgraded, then sends more bytes and closes its sending side. -/
def serve (site : Site) (peer : String) (board : Board) (request more : List UInt8) : Exchange :=
  talk site peer board request
    (fun unread => [.ping, .receive (unread ++ more), .inputEnd])

end Connection

end Ledboard
