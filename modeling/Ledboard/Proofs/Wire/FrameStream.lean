/-
# Streams of frames

A client sends frame after frame, and the board reads message after message.

* **Messages in a row** (`Frame.reads_iff`).  What is read in a row is the payloads of the frames
  that the stream starts with, in their order, and what is left is what stands behind the frames.
  So exactly what is written as the wire has it is read (`accepts_written`).
* **Whole frames** (`WholeFrames`).  Of all beginnings of a stream that are made of whole frames one
  is the longest.  It ends where no message can be read (`wholeFrames_nil_iff`), and it is found by
  taking frames off the stream (`WholeFrames.cons`, `WholeFrames.uncons`).
-/
import Ledboard.Proofs.Wire.ClientFrames

namespace Ledboard.Wire

/-! ## 1. Messages in a row -/

namespace Frame

/-- Reading some messages in a row takes their payloads off a stream and leaves a rest. -/
inductive Reads : List UInt8 → List (List UInt8) → List UInt8 → Prop where
  | nil (bytes : List UInt8) : Reads bytes [] bytes
  | cons {bytes next rest payload : List UInt8} {payloads : List (List UInt8)}
      (h : read bytes = ⟨.ok payload, next⟩) (hrest : Reads next payloads rest) :
      Reads bytes (payload :: payloads) rest

variable {bytes rest payload last : List UInt8} {payloads : List (List UInt8)}

/-- One more message. -/
theorem Reads.snoc (h : Reads bytes payloads rest) (hread : read rest = ⟨.ok payload, last⟩) :
    Reads bytes (payloads ++ [payload]) last := by
  induction h with
  | nil bytes => exact .cons hread (.nil last)
  | cons hfirst _ ih => exact .cons hfirst (ih hread)

/-- **Messages that are read in a row are frames in a row.** -/
theorem reads_iff :
    Reads bytes payloads rest ↔
      ∃ frames : List ClientFrame, frames.map ClientFrame.payload = payloads ∧
        bytes = frames.flatMap ClientFrame.bytes ++ rest := by
  constructor
  · intro h
    induction h with
    | nil bytes => exact ⟨[], rfl, rfl⟩
    | cons hread _ ih =>
      obtain ⟨f, rfl, rfl⟩ := exists_frame_of_read hread
      obtain ⟨frames, rfl, rfl⟩ := ih
      refine ⟨f :: frames, rfl, ?_⟩
      rw [List.flatMap_cons, List.append_assoc]
  · rintro ⟨frames, rfl, rfl⟩
    induction frames with
    | nil => exact .nil rest
    | cons f frames ih =>
      rw [List.flatMap_cons, List.append_assoc]
      exact .cons (f.read_bytes _) ih

end Frame

/-- **Exactly the masked short frames are read.**  A message is read off a stream if and only if the
stream starts with the message as it is written on the wire, and what is left is what stands behind
it.  So the messages of frames in a row are read in a row, and nothing behind them is touched. -/
theorem accepts_written :
    (∀ bytes payload rest : List UInt8,
      Frame.read bytes = ⟨.ok payload, rest⟩ ↔
        ∃ (first : UInt8) (key : Word), first &&& 0x80 = 0x80 ∧
          (first &&& 0x0f = 1 ∨ first &&& 0x0f = 2) ∧ payload.length ≤ 125 ∧
          bytes = written first key payload ++ rest) ∧
    (∀ (bytes : List UInt8) (payloads : List (List UInt8)) (rest : List UInt8),
      Frame.Reads bytes payloads rest ↔
        ∃ frames : List ClientFrame, frames.map ClientFrame.payload = payloads ∧
          bytes = frames.flatMap (fun f => written f.first f.key f.payload) ++ rest) := by
  constructor
  · intro bytes payload rest
    rw [Frame.read_eq_ok_iff]
    constructor
    · rintro ⟨f, rfl, rfl⟩
      exact ⟨f.first, f.key, f.final, f.opcode, f.short, rfl⟩
    · rintro ⟨first, key, hfinal, hopcode, hshort, rfl⟩
      exact ⟨⟨first, key, payload, hfinal, hopcode, hshort⟩, rfl, rfl⟩
  · intro bytes payloads rest
    exact Frame.reads_iff

/-! ## 2. The longest beginning of whole frames -/

/-- The whole frames at the start of a stream, as many as there are. -/
structure WholeFrames (stream : List UInt8) (frames : List ClientFrame) : Prop where
  /-- the stream starts with the frames -/
  begins : frames.flatMap ClientFrame.bytes <+: stream
  /-- and any frames that it starts with are among them -/
  longest : ∀ others : List ClientFrame,
    others.flatMap ClientFrame.bytes <+: stream → others <+: frames

variable {stream next : List UInt8} {f : ClientFrame} {frames : List ClientFrame}

/-- A stream starts with no whole frame exactly if no message can be read. -/
theorem wholeFrames_nil_iff :
    WholeFrames stream [] ↔ ∃ fault rest, Frame.read stream = ⟨.error fault, rest⟩ := by
  constructor
  · intro h
    rcases hread : Frame.read stream with ⟨fault | payload, rest⟩
    · exact ⟨fault, rest, rfl⟩
    · obtain ⟨f, -, hbytes⟩ := Frame.exists_frame_of_read hread
      have hone : [f] <+: [] := by
        apply h.longest
        rw [List.flatMap_singleton, hbytes]
        exact List.prefix_append _ _
      exact absurd (List.prefix_nil.mp hone) (List.cons_ne_nil f [])
  · rintro ⟨fault, rest, hread⟩
    refine ⟨List.nil_prefix, ?_⟩
    intro others hothers
    cases others with
    | nil => exact List.prefix_rfl
    | cons g others =>
      obtain ⟨behind, rfl⟩ := hothers
      rw [List.flatMap_cons, List.append_assoc, g.read_bytes] at hread
      exact absurd hread (by simp)

/-- A frame in front is one more whole frame. -/
theorem WholeFrames.cons (h : WholeFrames next frames) (f : ClientFrame) :
    WholeFrames (f.bytes ++ next) (f :: frames) := by
  constructor
  · rw [List.flatMap_cons]
    exact (List.prefix_append_right_inj f.bytes).mpr h.begins
  · intro others hothers
    cases others with
    | nil => exact List.nil_prefix
    | cons g others =>
      obtain ⟨behind, hbehind⟩ := hothers
      rw [List.flatMap_cons, List.append_assoc] at hbehind
      obtain ⟨rfl, rfl⟩ := ClientFrame.eq_of_bytes_append hbehind
      exact List.cons_prefix_cons.mpr ⟨rfl, h.longest others (List.prefix_append _ _)⟩

/-- The first whole frame can be taken off. -/
theorem WholeFrames.uncons (h : WholeFrames stream (f :: frames)) :
    ∃ next, stream = f.bytes ++ next ∧ WholeFrames next frames := by
  obtain ⟨behind, hbehind⟩ := h.begins
  rw [List.flatMap_cons, List.append_assoc] at hbehind
  refine ⟨_, hbehind.symm, List.prefix_append _ _, ?_⟩
  intro others hothers
  have hfront : (f :: others).flatMap ClientFrame.bytes <+: stream := by
    rw [← hbehind, List.flatMap_cons]
    exact (List.prefix_append_right_inj f.bytes).mpr hothers
  exact (List.cons_prefix_cons.mp (h.longest _ hfront)).2

/-- Frames in front are whole frames. -/
theorem WholeFrames.append (h : WholeFrames next frames) (front : List ClientFrame) :
    WholeFrames (front.flatMap ClientFrame.bytes ++ next) (front ++ frames) := by
  induction front with
  | nil => exact h
  | cons f front ih =>
    rw [List.flatMap_cons, List.append_assoc]
    exact ih.cons f

/-- **Every stream has its whole frames.** -/
theorem exists_wholeFrames (stream : List UInt8) : ∃ frames, WholeFrames stream frames := by
  -- A message that is read leaves fewer bytes, so the induction is on how many there are.
  induction hlength : stream.length using Nat.strongRecOn generalizing stream with
  | ind length ih =>
    rcases hread : Frame.read stream with ⟨fault | payload, rest⟩
    · exact ⟨[], wholeFrames_nil_iff.mpr ⟨fault, rest, hread⟩⟩
    · obtain ⟨frames, hframes⟩ := ih rest.length (hlength ▸ Frame.length_rest_read hread) rest rfl
      obtain ⟨f, -, rfl⟩ := Frame.exists_frame_of_read hread
      exact ⟨f :: frames, hframes.cons f⟩

end Ledboard.Wire
