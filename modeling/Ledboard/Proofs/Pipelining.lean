/-
# Messages that come with the request

A client may send messages before it has seen the answer to its request.  They come behind the
request in one stream, and some of them may be there already when the request is read.  None is
lost, and none is read twice: the session starts with the first byte behind the request
(`answer_append`), and what it does to the board is what the message loop does with all bytes behind
the request (`pipelined_messages_are_read`).
-/
import Ledboard.Proofs.Exchange
import Ledboard.Proofs.MessageLoop
import Ledboard.Proofs.Outcome
import Ledboard.Proofs.Wire.ClientRequests

namespace Ledboard.Connection

open Session (received)

variable {site : Site} {request : List UInt8} {parts : Wire.Request} {key : String}

/-- **A session starts with the first byte behind the request**, whatever that byte is. -/
theorem answer_append (hread : Wire.Request.read request = ⟨.ok parts, []⟩)
    (hget : parts.Fetches "/ws") (hkey : parts.headers.first? "Sec-WebSocket-Key" = some key)
    (site : Site) (files : FileTree) (behind : List UInt8) :
    answer site files (request ++ behind) =
      .upgrade (.switchingProtocols (Wire.acceptKey key)) behind := by
  have hmore := Wire.Request.read_append hread (by simp) behind
  rw [List.nil_append] at hmore
  exact answer_of_session hmore hget hkey

/-- **Messages that come with the request are read by the session.**  For every request for a
session, and all bytes behind it, of which a first part comes with the request and the rest later,
in whatever pieces and whatever the senders do meanwhile:

* the display and the files are left as the message loop leaves them when it reads the bytes behind
  the request, from the first of them to the last;
* the client gets the response that switches to messages first, and that depends on the request
  alone. -/
theorem pipelined_messages_are_read (hread : Wire.Request.read request = ⟨.ok parts, []⟩)
    (hget : parts.Fetches "/ws")
    (hkey : parts.headers.first? "Sec-WebSocket-Key" = some key) (peer : String) (board : Board)
    {front back : List UInt8} {conversation : List UInt8 → List SessionEvent}
    {events : List SessionEvent} (hconversation : conversation front = events ++ [.inputEnd])
    (hevents : ∀ event ∈ events, event ≠ .inputEnd)
    (hreceived : events.flatMap received = front ++ back) :
    let exchange := talk site peer board (request ++ front) conversation
    exchange.board = (Session.drain site.store true board (front ++ back)).board ∧
      (Wire.Head.ofUpgrade (Wire.acceptKey key)).bytes <+: exchange.bytes := by
  intro exchange
  have hanswer := answer_append hread hget hkey site board.files front
  have hexchange : exchange = ⟨some (.switchingProtocols (Wire.acceptKey key)),
      ((Session.start peer).run site.store board (conversation front)).2.2.frames,
      ((Session.start peer).run site.store board (conversation front)).2.1,
      Session.connected peer ::
        ((Session.start peer).run site.store board (conversation front)).2.2.events⟩ := by
    simp only [exchange, talk, hanswer]
  rw [hexchange]
  constructor
  · rw [hconversation, ← hreceived]
    exact (Session.board_run hevents peer site.store board).2
  · simp only [Exchange.bytes, Option.map_some, Option.getD_some,
      Wire.Response.bytes_switchingProtocols]
    exact List.prefix_append _ _

/-- A client that paints two LEDs.  The first half of its frame comes with the request. -/
theorem pipelined_messages_are_read_of_paint :
    let request := Text.bytesOf "GET /ws HTTP/1.1\r\nSec-WebSocket-Key: abc==\r\n\r\n"
    let headers : Wire.Headers := ⟨[("Sec-WebSocket-Key", #["abc=="])]⟩
    let front : List UInt8 := [0x82, 0x83, 1, 2]
    let back : List UInt8 := [3, 4, 0x4c, 0x0b, 0x0a]
    let board : Board := ⟨Display.dark 2, FileTree.empty⟩
    let exchange := serve ⟨"index.html", ⟨"ram.bin"⟩⟩ "client" board (request ++ front) back
    Wire.Request.read request = ⟨.ok ⟨"GET", "/ws", "HTTP/1.1", headers⟩, []⟩ ∧
      exchange.board = ⟨((Display.dark 2).paint [Rgb.gray 9, Rgb.gray 9]).flush, FileTree.empty⟩ ∧
      (Wire.Head.ofUpgrade (Wire.acceptKey "abc==")).bytes <+: exchange.bytes := by
  intro request headers front back board exchange
  have hread : Wire.Request.read request = ⟨.ok ⟨"GET", "/ws", "HTTP/1.1", headers⟩, []⟩ := by
    have houtcome : (Wire.Request.read request).outcome =
        .ok ⟨"GET", "/ws", "HTTP/1.1", headers⟩ := toOption_eq_some_iff.mp (by decide +kernel)
    have hrest : (Wire.Request.read request).rest = [] := by decide +kernel
    rw [← hrest, ← houtcome]
  obtain ⟨hboard, hresponse⟩ :=
    @pipelined_messages_are_read ⟨"index.html", ⟨"ram.bin"⟩⟩ request _ "abc==" hread
      ⟨rfl, rfl⟩ (by decide +kernel) "client" board front back
      (fun unread => [.ping, .receive (unread ++ back), .inputEnd])
      [.ping, .receive (front ++ back)] rfl (by simp) (by simp [received])
  have hpainted : (Session.drain ⟨"ram.bin"⟩ true board (front ++ back)).board =
      ⟨((Display.dark 2).paint [Rgb.gray 9, Rgb.gray 9]).flush, FileTree.empty⟩ := by
    decide +kernel
  exact ⟨hread, hboard.trans hpainted, hresponse⟩

end Ledboard.Connection
