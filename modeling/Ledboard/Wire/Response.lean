/-
# Responses

The board answers a request in one of four ways.  Switching to messages proves that the request
was understood: it returns the digest of the client's key and a fixed identifier.  The other
three have a body, whose length in bytes stands in the head, and close the connection.
-/
import Ledboard.Digest.Sha1
import Ledboard.Digest.Base64
import Ledboard.Text.Utf8
import Ledboard.Wire.Headers

namespace Ledboard.Wire

/-- The identifier that is appended to a client's key. -/
def upgradeIdentifier : String := "258EAFA5-E914-47DA-95CA-C5AB0DC85B11"

/-- The header that carries a client's key. -/
def keyHeader : String := "Sec-WebSocket-Key"

/-- The answer to a client's key. -/
def acceptKey (key : String) : String :=
  Base64.encode (Sha1.digest (Text.bytesOf key ++ Text.bytesOf upgradeIdentifier))

/-- What the board answers to a request. -/
inductive Response where
  /-- messages follow -/
  | switchingProtocols (accept : String)
  /-- a page -/
  | html (body : String)
  /-- there is no such path -/
  | notFound
  /-- the request could not be served, for the reason given -/
  | internalError (body : String)
  deriving DecidableEq, Repr

namespace Response

/-- The answer to an upgrade request, from the first key in its headers. -/
def upgrade (headers : Headers) : Except Fault Response :=
  match headers.first? keyHeader with
  | none => .error .missingKey
  | some key => .ok (.switchingProtocols (acceptKey key))

/-- The text of an answer with a body. -/
def withBody (status : String) (contentType : Option String) (body : String) : String :=
  "HTTP/1.1 " ++ status ++ "\r\n"
    ++ (match contentType with
      | none => ""
      | some kind => "Content-Type: " ++ kind ++ "\r\n")
    ++ "Content-Length: " ++ Text.decimal body.utf8ByteSize ++ "\r\nConnection: close\r\n\r\n"
    ++ body

/-- The text of an answer. -/
def text : Response → String
  | .switchingProtocols accept =>
    "HTTP/1.1 101 Switching Protocols\r\nUpgrade: websocket\r\nConnection: Upgrade\r\n"
      ++ "Sec-WebSocket-Accept: " ++ accept ++ "\r\n\r\n"
  | .html body => withBody "200 OK" (some "text/html") body
  | .notFound => withBody "404 Not Found" none "Not Found!"
  | .internalError body => withBody "500 Internal Error" none body

/-- The bytes of an answer. -/
def bytes (r : Response) : List UInt8 := Text.bytesOf r.text

end Response

end Ledboard.Wire
