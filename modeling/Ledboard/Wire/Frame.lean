/-
# Frames

After the upgrade both sides send messages, one frame each.  A frame starts with two bytes: a
final flag, three reserved bits that are ignored and an opcode; then a mask flag and the length
of the payload.  A client's frame goes on with a masking key of four bytes, and each byte of its
payload is combined with the key's bytes in turn.  Frames of the board are binary and unmasked.

Only whole text or binary messages of at most 125 bytes are read.  The header is checked before
anything behind it is looked at.
-/
import Ledboard.Word
import Ledboard.Wire.Fault

namespace Ledboard.Wire

/-- The longest payload that a short frame holds. -/
def payloadLimit : Nat := 125

namespace Frame

/-- The opcode in the first byte of a frame. -/
def opcodeOf (first : UInt8) : UInt8 := UInt8.ofNat (first.toNat % 16)

/-- The length code in the second byte of a frame. -/
def lengthOf (second : UInt8) : Nat := second.toNat % 128

/-- Whether the topmost bit of a byte is set: the final flag of the first byte, the mask flag of
the second. -/
def flagged (byte : UInt8) : Bool := decide (128 ≤ byte.toNat)

/-- The length of the payload that a client's frame header announces. -/
def payloadLength (first second : UInt8) : Except Fault Nat :=
  let opcode := opcodeOf first
  if !flagged first then .error .fragmented
  else if opcode ≠ 1 ∧ opcode ≠ 2 then .error (.unsupportedOpcode opcode)
  else if !flagged second then .error .unmasked
  else if payloadLimit < lengthOf second then
    .error (.extendedLength (UInt8.ofNat (lengthOf second)))
  else .ok (lengthOf second)

/-- Combines a payload with the bytes of a key in turn.  Doing so twice changes nothing. -/
def mask (key : Word) : List UInt8 → List UInt8
  | [] => []
  | b :: rest => (b ^^^ key.b0) :: mask ⟨key.b1, key.b2, key.b3, key.b0⟩ rest

/-- Reads the payload of a client's message. -/
def read (bytes : List UInt8) : Reading (List UInt8) :=
  match bytes with
  | first :: second :: rest =>
    match payloadLength first second with
    | .error fault => ⟨.error fault, rest⟩
    | .ok length =>
      match rest with
      | k0 :: k1 :: k2 :: k3 :: body =>
        let payload := body.take length
        if payload.length = length then
          ⟨.ok (mask ⟨k0, k1, k2, k3⟩ payload), body.drop length⟩
        else ⟨.error .truncated, []⟩
      | _ => ⟨.error .truncated, []⟩
  | _ => ⟨.error .closed, []⟩

/-- The frame of a message of the board. -/
def encode (payload : List UInt8) : Except Fault (List UInt8) :=
  if payload.length ≤ payloadLimit then .ok (0x82 :: UInt8.ofNat payload.length :: payload)
  else .error (.payloadTooLarge payload.length)

theorem length_rest_read {bytes rest payload : List UInt8}
    (h : read bytes = ⟨.ok payload, rest⟩) : rest.length < bytes.length := by
  unfold read at h
  simp only at h
  repeat' split at h
  all_goals simp only [Reading.mk.injEq, reduceCtorEq, false_and, Except.ok.injEq] at h
  obtain ⟨-, rfl⟩ := h
  simp only [List.length_drop, List.length_cons]
  omega

/-- Reads messages until one cannot be read: the payloads, the fault and what is left unread. -/
def readAll (bytes : List UInt8) : List (List UInt8) × Fault × List UInt8 :=
  match _h : read bytes with
  | ⟨.error fault, rest⟩ => ([], fault, rest)
  | ⟨.ok payload, rest⟩ =>
    let (payloads, fault, rest) := readAll rest
    (payload :: payloads, fault, rest)
termination_by bytes.length
decreasing_by exact length_rest_read (by assumption)

end Frame

end Ledboard.Wire
