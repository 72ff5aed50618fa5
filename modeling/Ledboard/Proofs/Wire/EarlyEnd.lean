/-
# Streams that end early

A peer that goes away ends the stream behind a frame, or inside one.  The first is `closed` and the
second `truncated`, with one exception: a stream that ends behind the first byte of a frame is
`closed` too (`closed_behind_first_byte`), because the two bytes of the header are asked for at once
and it makes no difference how many of them are missing.

* **Too short for a header** (`Frame.read_eq_closed_iff`).  `closed` means that there is one byte at
  most.
* **Too short for its frame** (`Frame.read_eq_truncated_iff`).  `truncated` means that there are two
  bytes or more, and that they are the beginning of a frame but not the whole of one.  Whether the key
  is cut or the payload makes no difference.

The messages in front of the cut are read all the same (`early_end_is_told`).
-/
import Ledboard.Proofs.Wire.FrameStream

namespace Ledboard.Wire

variable {first second : UInt8} {bytes body rest cut : List UInt8} {fault : Fault} {length : Nat}
  {f : ClientFrame}

theorem ClientFrame.length_bytes (f : ClientFrame) : f.bytes.length = 6 + f.payload.length := by
  rw [bytes_eq, List.length_cons, List.length_cons, List.length_append, Frame.length_mask,
    Word.length_toList]
  omega

namespace Frame

/-! ## 1. What follows a header -/

/-- A header is refused for its bytes, and never because the stream ends. -/
theorem isProtocolFault_of_payloadLength (h : payloadLength first second = .error fault) :
    fault.isProtocolFault = true := by
  simp only [payloadLength] at h
  repeat' split at h
  all_goals simp only [Except.error.injEq, reduceCtorEq] at h
  all_goals subst h; rfl

theorem read_of_refused (h : payloadLength first second = .error fault) (body : List UInt8) :
    read (first :: second :: body) = ⟨.error fault, body⟩ := by
  simp only [read, h]

/-- Behind a header that is accepted stand four bytes of key and the payload.  If some of these bytes
are missing, nothing is read, -/
theorem read_of_missing (h : payloadLength first second = .ok length)
    (hmissing : body.length < 4 + length) :
    read (first :: second :: body) = ⟨.error .truncated, []⟩ := by
  match body with
  | k0 :: k1 :: k2 :: k3 :: masked =>
    have hpayload : (masked.take length).length ≠ length := by
      simp only [List.length_cons] at hmissing
      rw [List.length_take]
      omega
    simp only [read, h, if_neg hpayload]
  | [] | [_] | [_, _] | [_, _, _] => simp only [read, h]

/-- and if all are there, a message is. -/
theorem exists_read_of_whole (h : payloadLength first second = .ok length)
    (hwhole : 4 + length ≤ body.length) :
    ∃ payload, read (first :: second :: body) = ⟨.ok payload, body.drop (4 + length)⟩ := by
  match body with
  | k0 :: k1 :: k2 :: k3 :: masked =>
    have hpayload : (masked.take length).length = length := by
      simp only [List.length_cons] at hwhole
      rw [List.length_take]
      omega
    refine ⟨mask ⟨k0, k1, k2, k3⟩ (masked.take length), ?_⟩
    simp only [read, h, if_pos hpayload, Nat.add_comm 4 length, List.drop_succ_cons]
  | [] | [_] | [_, _] | [_, _, _] =>
    simp only [List.length_cons, List.length_nil] at hwhole
    omega

/-- **What is read of two bytes and more**: a fault of the header, nothing, or a message. -/
theorem read_cases (first second : UInt8) (body : List UInt8) :
    (∃ fault, fault.isProtocolFault = true ∧
      read (first :: second :: body) = ⟨.error fault, body⟩) ∨
    (∃ length, payloadLength first second = .ok length ∧ body.length < 4 + length ∧
      read (first :: second :: body) = ⟨.error .truncated, []⟩) ∨
    ∃ payload rest, read (first :: second :: body) = ⟨.ok payload, rest⟩ := by
  cases hheader : payloadLength first second with
  | error fault =>
    exact .inl ⟨fault, isProtocolFault_of_payloadLength hheader, read_of_refused hheader body⟩
  | ok length =>
    rcases Nat.lt_or_ge body.length (4 + length) with hmissing | hwhole
    · exact .inr (.inl ⟨length, rfl, hmissing, read_of_missing hheader hmissing⟩)
    · obtain ⟨payload, hread⟩ := exists_read_of_whole hheader hwhole
      exact .inr (.inr ⟨payload, _, hread⟩)

/-! ## 2. Streams that are too short -/

/-- **A stream is `closed` exactly if it is too short for a header.** -/
theorem read_eq_closed_iff :
    read bytes = ⟨.error .closed, rest⟩ ↔ bytes.length ≤ 1 ∧ rest = [] := by
  match bytes with
  | [] | [_] => simp [read, eq_comm]
  | first :: second :: body =>
    refine iff_of_false ?_ (fun hlength => absurd hlength.1 (by simp))
    intro hclosed
    obtain ⟨fault, hfault, hread⟩ | ⟨_, _, _, hread⟩ | ⟨_, _, hread⟩ :=
      read_cases first second body
    · cases hclosed.symm.trans hread
      cases hfault
    · cases hclosed.symm.trans hread
    · cases hclosed.symm.trans hread

/-- Behind a header that is accepted, too few bytes are the beginning of a frame. -/
theorem exists_frame_of_missing (h : payloadLength first second = .ok length)
    (hmissing : body.length < 4 + length) :
    ∃ f : ClientFrame, first :: second :: body <+: f.bytes ∧ first :: second :: body ≠ f.bytes := by
  -- What is missing may be anything, so let it be zeros.
  let zeros := List.replicate (4 + length - body.length) (0 : UInt8)
  have hlength : (body ++ zeros).length = 4 + length := by
    rw [List.length_append, List.length_replicate]
    omega
  obtain ⟨payload, hread⟩ := exists_read_of_whole h (Nat.le_of_eq hlength.symm)
  rw [← hlength, List.drop_length] at hread
  obtain ⟨f, -, hbytes⟩ := exists_frame_of_read hread
  rw [List.append_nil] at hbytes
  refine ⟨f, hbytes ▸ ⟨zeros, rfl⟩, fun hsame => ?_⟩
  have hboth := congrArg List.length (hsame.trans hbytes.symm)
  simp only [List.length_cons, hlength] at hboth
  omega

/-- **A stream is `truncated` exactly if it is part of a frame**, and long enough for its header. -/
theorem read_eq_truncated_iff :
    read bytes = ⟨.error .truncated, rest⟩ ↔
      2 ≤ bytes.length ∧ rest = [] ∧ ∃ f : ClientFrame, bytes <+: f.bytes ∧ bytes ≠ f.bytes := by
  match bytes with
  | [] | [_] => simp [read]
  | first :: second :: body =>
    constructor
    · intro htruncated
      obtain ⟨fault, hfault, hread⟩ | ⟨_, hheader, hmissing, hread⟩ | ⟨_, _, hread⟩ :=
        read_cases first second body
      · cases htruncated.symm.trans hread
        cases hfault
      · cases htruncated.symm.trans hread
        exact ⟨by simp, rfl, exists_frame_of_missing hheader hmissing⟩
      · cases htruncated.symm.trans hread
    · rintro ⟨-, rfl, f, hpart, hne⟩
      have hshorter := Nat.lt_of_le_of_ne hpart.length_le (fun heq => hne (hpart.eq_of_length heq))
      rw [f.length_bytes, List.length_cons, List.length_cons] at hshorter
      obtain ⟨rfl, hbehind⟩ := List.cons_prefix_cons.mp hpart
      obtain ⟨rfl, -⟩ := List.cons_prefix_cons.mp hbehind
      exact read_of_missing f.payloadLength_header (by omega)

end Frame

/-! ## 3. The whole -/

/-- **Part of a frame is no message**, and its length alone tells how the end is reported. -/
theorem read_of_part (hpart : cut <+: f.bytes) (hne : cut ≠ f.bytes) :
    Frame.read cut = ⟨.error (if cut.length ≤ 1 then .closed else .truncated), []⟩ := by
  split
  · rename_i hshort
    exact Frame.read_eq_closed_iff.mpr ⟨hshort, rfl⟩
  · rename_i hlong
    exact Frame.read_eq_truncated_iff.mpr ⟨Nat.lt_of_not_le hlong, rfl, f, hpart, hne⟩

/-- A frame that breaks off behind its first byte is reported as `closed`, although the stream does
not end between two frames. -/
theorem closed_behind_first_byte :
    ¬ ∀ (f : ClientFrame) (cut : List UInt8), cut <+: f.bytes → cut ≠ f.bytes → cut ≠ [] →
        Frame.read cut = ⟨.error .truncated, []⟩ := by
  intro h
  let f : ClientFrame := ⟨0x82, ⟨1, 2, 3, 4⟩, [], by decide, by decide, by decide⟩
  have hread := h f [0x82] ⟨_, rfl⟩ (by decide) (by decide)
  cases hread

namespace Frame

theorem readAll_of_fault (h : read bytes = ⟨.error fault, rest⟩) :
    readAll bytes = ([], fault, rest) := by
  rw [readAll]
  split
  · rename_i hread
    cases h.symm.trans hread
    rfl
  · rename_i hread
    cases h.symm.trans hread

theorem readAll_of_ok {payload : List UInt8} (h : read bytes = ⟨.ok payload, rest⟩) :
    readAll bytes = (payload :: (readAll rest).1, (readAll rest).2) := by
  rw [readAll]
  split
  · rename_i hread
    cases h.symm.trans hread
  · rename_i hread
    cases h.symm.trans hread
    rfl

/-- **Reading on until the end** finds the messages that are read in a row, and then what is found in
what they leave. -/
theorem readAll_of_reads {payloads : List (List UInt8)} (h : Reads bytes payloads rest) :
    readAll bytes = (payloads ++ (readAll rest).1, (readAll rest).2) := by
  induction h with
  | nil => rfl
  | cons hread _ ih => rw [readAll_of_ok hread, ih, List.cons_append]

end Frame

/-- **How a stream ends is told by how much of a frame is missing.**  Let a stream be some frames and
part of a further one, but not the whole of it.  Then

* the messages of the whole frames are read, in their order, and the part is left;
* reading on finds the stream `closed` if the part is empty or one byte long, and `truncated`, which
  is worded `early eof`, if it is longer;
* so all that is read of the stream is these messages, with that fault, and nothing is left.

Of all streams these are the only ones where either is found: `closed` means that no more than a byte
is left, and `truncated` that part of a frame is left, of two bytes at least. -/
theorem early_end_is_told (frames : List ClientFrame) (hpart : cut <+: f.bytes)
    (hne : cut ≠ f.bytes) :
    let stream := frames.flatMap ClientFrame.bytes ++ cut
    let payloads := frames.map ClientFrame.payload
    Frame.Reads stream payloads cut ∧
      (cut.length ≤ 1 → Frame.read cut = ⟨.error .closed, []⟩) ∧
      (2 ≤ cut.length → Frame.read cut = ⟨.error .truncated, []⟩) ∧
      Fault.message .truncated = "early eof" ∧
      Frame.readAll stream = (payloads, if cut.length ≤ 1 then .closed else .truncated, []) ∧
      (∀ bytes rest, Frame.read bytes = ⟨.error .closed, rest⟩ ↔ bytes.length ≤ 1 ∧ rest = []) ∧
      ∀ bytes rest, Frame.read bytes = ⟨.error .truncated, rest⟩ ↔
        2 ≤ bytes.length ∧ rest = [] ∧ ∃ f : ClientFrame, bytes <+: f.bytes ∧ bytes ≠ f.bytes := by
  intro stream payloads
  have hreads : Frame.Reads stream payloads cut := Frame.reads_iff.mpr ⟨frames, rfl, rfl⟩
  have hread := read_of_part hpart hne
  refine ⟨hreads, fun hshort => ?_, fun hlong => ?_, rfl, ?_,
    fun _ _ => Frame.read_eq_closed_iff, fun _ _ => Frame.read_eq_truncated_iff⟩
  · rwa [if_pos hshort] at hread
  · rwa [if_neg (Nat.not_le_of_lt hlong)] at hread
  · rw [Frame.readAll_of_reads hreads, Frame.readAll_of_fault hread, List.append_nil]

/-- A frame, and another one that is cut in its payload. -/
theorem early_end_is_told_of_payload :
    let f : ClientFrame := ⟨0x81, ⟨1, 2, 3, 4⟩, [0x4d, 7], by decide, by decide, by decide⟩
    let cut : List UInt8 := [0x81, 0x82, 1, 2, 3, 4, 0x4c]
    cut <+: f.bytes ∧ cut ≠ f.bytes ∧
      Frame.readAll (f.bytes ++ cut) = ([[0x4d, 7]], .truncated, []) := by
  intro f cut
  have hpart : cut <+: f.bytes := ⟨[5], by decide⟩
  have hne : cut ≠ f.bytes := by decide
  obtain ⟨-, -, -, -, hall, -⟩ := early_end_is_told [f] hpart hne
  exact ⟨hpart, hne, hall⟩

end Ledboard.Wire
