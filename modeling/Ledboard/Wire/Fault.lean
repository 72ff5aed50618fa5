/-
# What can go wrong on a connection

A connection can end between two messages (`closed`) or inside one (`truncated`); neither breaks
the protocol.  Everything else does.
-/
import Ledboard.Text.Quoted

namespace Ledboard.Wire

/-- Longest request or header line, with its line end. -/
def lineLimit : Nat := 4096

/-- The reason why reading or writing on a connection failed. -/
inductive Fault where
  /-- the peer ended the stream at a message boundary -/
  | closed
  /-- the peer ended the stream inside a frame -/
  | truncated
  /-- a line without an end within the limit -/
  | lineTooLong
  /-- a request line that is not three parts, or has no method or no path -/
  | malformedRequestLine (line : String)
  /-- a header line without a key, or a line that is not UTF-8 -/
  | malformedHeader (line : String)
  /-- an upgrade request without the key header -/
  | missingKey
  /-- a frame that is only part of a message -/
  | fragmented
  /-- a frame that is neither text nor binary -/
  | unsupportedOpcode (opcode : UInt8)
  /-- a client frame without a masking key -/
  | unmasked
  /-- a frame with an extended length -/
  | extendedLength (code : UInt8)
  /-- a payload too long for a short frame -/
  | payloadTooLarge (size : Nat)
  deriving DecidableEq, Repr

namespace Fault

/-- Whether the peer broke the protocol, as opposed to going away. -/
def isProtocolFault : Fault → Bool
  | .closed | .truncated => false
  | _ => true

/-- The wording of a fault. -/
def message : Fault → String
  | .closed => "connection closed"
  | .truncated => "early eof"
  | .lineTooLong => "request line longer than " ++ Text.decimal lineLimit ++ " bytes"
  | .malformedRequestLine line => "malformed request line " ++ Text.quoted line
  | .malformedHeader line => "malformed header line " ++ Text.quoted line
  | .missingKey => "missing Sec-WebSocket-Key header"
  | .fragmented => "FIN flag expected"
  | .unsupportedOpcode opcode =>
    "raw or text data expected, got opcode " ++ Text.hex opcode.toNat
  | .unmasked => "mask flag expected"
  | .extendedLength code => "short payload expected, got length code " ++ Text.decimal code.toNat
  | .payloadTooLarge size =>
    "payload of " ++ Text.decimal size ++ " bytes does not fit a short frame"

end Fault

/-- What reading from a stream gave, and the bytes that are still unread. -/
structure Reading (α : Type) where
  outcome : Except Fault α
  rest : List UInt8

end Ledboard.Wire
