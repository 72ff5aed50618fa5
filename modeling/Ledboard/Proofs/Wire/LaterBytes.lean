/-
# Bytes that come later

A reader on a connection has only the bytes that have arrived.  It gives its answer as soon as they
decide it, and bytes that come later never change an answer (`later_bytes_change_nothing`): they are
left behind what was left before.

The one answer that more bytes may change is that the stream ended too early.  A stream that is found
to end inside a request was read to its end (`Request.rest_of_closed`), and every first part of a
request but the whole is such a stream (`Request.closed_of_part`): it never passes for a request with
fewer headers, nor for a broken one.
-/
import Ledboard.Proofs.Wire.ClientFrames
import Ledboard.Proofs.Wire.ClientRequests

namespace Ledboard.Wire

variable {bytes more rest : List UInt8} {headers : Headers}

/-! ## 1. Streams that end too early -/

/-- A line that has its end is never taken for the end of the stream. -/
theorem lineText_ne_closed (line : List UInt8) : lineText line ≠ .error .closed := by
  unfold lineText
  split <;> simp

theorem addLine_ne_closed (headers : Headers) (line : String) :
    headers.addLine line ≠ .error .closed := by
  unfold Headers.addLine
  split <;> simp

/-- A stream that ends inside a line was read to its end. -/
theorem rest_of_readLine_closed (h : readLine bytes = ⟨.error .closed, rest⟩) : rest = [] := by
  generalize houtcome : (.error .closed : Except Fault String) = outcome at h
  cases readLine_eq_iff.mp h with
  | whole => exact absurd houtcome.symm (lineText_ne_closed _)
  | long => exact absurd houtcome (by simp)
  | cut => rfl

/-- So was one that ends inside the header lines. -/
theorem rest_of_readHeaders_closed (h : readHeaders headers bytes = ⟨.error .closed, rest⟩) :
    rest = [] := by
  induction hlength : bytes.length using Nat.strongRecOn generalizing headers bytes with
  | ind length ih =>
    rcases hread : readLine bytes with ⟨fault | text, behind⟩
    · rw [readHeaders_of_fault hread, Reading.mk.injEq, Except.error.injEq] at h
      obtain ⟨rfl, rfl⟩ := h
      exact rest_of_readLine_closed hread
    · by_cases htext : text = ""
      · subst htext
        rw [readHeaders_of_empty hread] at h
        exact absurd h (by simp)
      · cases hadd : headers.addLine text with
        | error fault =>
          rw [readHeaders_of_refused hread htext hadd, Reading.mk.injEq, Except.error.injEq] at h
          exact absurd (h.1 ▸ hadd) (addLine_ne_closed headers text)
        | ok next =>
          rw [readHeaders_of_field hread htext hadd] at h
          exact ih behind.length (hlength ▸ length_rest_readLine hread) h rfl

namespace Request

/-- **A stream that ends inside a request was read to its end.** -/
theorem rest_of_closed (h : read bytes = ⟨.error .closed, rest⟩) : rest = [] := by
  unfold read at h
  split at h
  · rename_i fault behind hline
    rw [Reading.mk.injEq, Except.error.injEq] at h
    obtain ⟨rfl, rfl⟩ := h
    exact rest_of_readLine_closed hline
  · split at h
    · exact absurd h (by simp)
    · split at h
      · rename_i fault last hheaders
        rw [Reading.mk.injEq, Except.error.injEq] at h
        obtain ⟨rfl, rfl⟩ := h
        exact rest_of_readHeaders_closed hheaders
      · exact absurd h (by simp)

/-- **A first part of a request is found to end too early**, unless it is the whole request. -/
theorem closed_of_part {parts : Request} (h : read (bytes ++ more) = ⟨.ok parts, []⟩)
    (hmore : more ≠ []) : read bytes = ⟨.error .closed, []⟩ := by
  rcases hread : read bytes with ⟨outcome, rest⟩
  by_cases hclosed : outcome = .error .closed
  · subst hclosed
    rw [rest_of_closed hread]
  · -- Any other answer would stay the same, and leave the bytes that are still missing.
    rw [read_append hread hclosed more, Reading.mk.injEq, List.append_eq_nil_iff] at h
    exact absurd h.2.2 hmore

end Request

/-! ## 2. Later bytes -/

/-- A message or a header that breaks the protocol is read again when more bytes follow. -/
theorem Frame.read_append {outcome : Except Fault (List UInt8)}
    (h : read bytes = ⟨outcome, rest⟩)
    (hdecided : ∀ fault, outcome = .error fault → fault.isProtocolFault = true)
    (more : List UInt8) : read (bytes ++ more) = ⟨outcome, rest ++ more⟩ := by
  cases outcome with
  | ok payload => exact read_append_of_ok h more
  | error fault => exact read_append_of_fault h (hdecided fault rfl) more

/-- **Reading never depends on bytes that come later.**  For all bytes, and all bytes behind them:

* a request that was read, or a fault that was found before the stream ended, is read again with the
  bytes behind it, which are left;
* so is a message, or a header that breaks the protocol;
* what lacks some bytes of a request is found to end too early, wherever it is cut. -/
theorem later_bytes_change_nothing (bytes more : List UInt8) :
    (∀ outcome rest, Request.read bytes = ⟨outcome, rest⟩ → outcome ≠ .error .closed →
      Request.read (bytes ++ more) = ⟨outcome, rest ++ more⟩) ∧
    (∀ outcome rest, Frame.read bytes = ⟨outcome, rest⟩ →
      (∀ fault, outcome = .error fault → fault.isProtocolFault = true) →
      Frame.read (bytes ++ more) = ⟨outcome, rest ++ more⟩) ∧
    ∀ parts, Request.read (bytes ++ more) = ⟨.ok parts, []⟩ → more ≠ [] →
      Request.read bytes = ⟨.error .closed, []⟩ :=
  ⟨fun _ _ h hopen => Request.read_append h hopen more,
    fun _ _ h hdecided => Frame.read_append h hdecided more,
    fun _ h hmore => Request.closed_of_part h hmore⟩

/-- A request that is cut behind a whole header line; one with a line that is no header; and a frame
without a mask. -/
theorem later_bytes_change_nothing_of_cuts :
    let part := Text.bytesOf "GET / HTTP/1.1\r\nHost: skc\r\n"
    let broken := Text.bytesOf "GET / HTTP/1.1\nHost skc\n"
    let more := Text.bytesOf "\r\n"
    Request.read part = ⟨.error .closed, []⟩ ∧
      Request.read (part ++ more) =
        ⟨.ok ⟨"GET", "/", "HTTP/1.1", ⟨[("Host", #["skc"])]⟩⟩, []⟩ ∧
      Request.read (broken ++ more) = ⟨.error (.malformedHeader "Host skc"), more⟩ ∧
      Frame.read ([0x81, 0x03, 0x4d] ++ more) = ⟨.error .unmasked, 0x4d :: more⟩ := by
  intro part broken more
  have hread : ∀ {bytes rest : List UInt8} {outcome : Except Fault Request},
      (Request.read bytes).outcome = outcome → (Request.read bytes).rest = rest →
      Request.read bytes = ⟨outcome, rest⟩ := by
    rintro bytes _ _ rfl rfl
    rfl
  have hwhole : Request.read (part ++ more) =
      ⟨.ok ⟨"GET", "/", "HTTP/1.1", ⟨[("Host", #["skc"])]⟩⟩, []⟩ :=
    hread (by decide +kernel) (by decide +kernel)
  have hbroken : Request.read broken = ⟨.error (.malformedHeader "Host skc"), []⟩ :=
    hread (by decide +kernel) (by decide +kernel)
  have hframe : Frame.read [0x81, 0x03, 0x4d] = ⟨.error .unmasked, [0x4d]⟩ := rfl
  have hfault : ∀ fault, (.error .unmasked : Except Fault (List UInt8)) = .error fault →
      fault.isProtocolFault = true := by
    rintro fault ⟨⟩
    rfl
  exact ⟨(later_bytes_change_nothing part more).2.2 _ hwhole (by decide +kernel), hwhole,
    (later_bytes_change_nothing broken more).1 _ _ hbroken (by simp),
    (later_bytes_change_nothing _ more).2.1 _ _ hframe hfault⟩

end Ledboard.Wire
