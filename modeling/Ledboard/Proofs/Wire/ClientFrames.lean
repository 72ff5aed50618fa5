/-
# The frames of a client

A client's message is one frame, and `written` says by bits and positions what it looks like on the
wire:

* the first byte has its topmost bit set, and 1 or 2 in its low four bits; the three bits between
  are free;
* the second byte is 128 and the length of the payload, at most 125;
* then come the four bytes of the key, and byte `i` of the payload combined with byte `i % 4` of
  the key.

A `ClientFrame` is such a message with all that the client may choose, which is the key, the opcode
and the reserved bits.  `Frame.read` goes from left to right, takes the header apart by arithmetic
and turns the key with each byte of the payload.

* **The format** (`Frame.flagged_iff`, `Frame.opcodeOf_eq_and`, `Frame.mask_eq_mapIdx`).  Both ways
  to look at a frame come to the same.
* **Whole frames** (`read_bytes`, `read_eq_ok_iff`).  Reading finds the payload of the frame that a
  stream starts with, and leaves what is behind it; and nothing else is read.
* **Streams** (`eq_of_bytes_append`).  Bytes tell a frame and what is behind it apart in one way
  only.
* **More bytes** (`read_append_of_ok`, `read_append_of_fault`).  Reading never looks behind the
  message or the header that decides it: what was read, and what was refused, stays so when more
  bytes follow.
-/
import Ledboard.Wire.Frame

namespace Ledboard.Wire

namespace Frame

/-! ## 1. The bits of the header -/

/-- The final flag and the mask flag are the topmost bit of their byte. -/
theorem flagged_iff (b : UInt8) : flagged b = true ↔ b &&& 0x80 = 0x80 := by
  have hall : ∀ n < 256, flagged (UInt8.ofNat n) = true ↔ UInt8.ofNat n &&& 0x80 = 0x80 := by
    decide +kernel
  have hb := hall b.toNat b.toNat_lt
  rwa [UInt8.ofNat_toNat] at hb

/-- The opcode is in the low four bits. -/
theorem opcodeOf_eq_and (b : UInt8) : opcodeOf b = b &&& 0x0f := by
  have hmod : b.toNat &&& 15 = b.toNat % 16 := Nat.and_two_pow_sub_one_eq_mod b.toNat 4
  have hsmall : b.toNat &&& 15 ≤ 15 := Nat.and_le_right
  rw [← UInt8.toNat_inj, UInt8.toNat_and, opcodeOf, UInt8.toNat_ofNat', ← hmod]
  exact Nat.mod_eq_of_lt (by omega)

/-! ## 2. The key in turn -/

/-- The byte of a key that belongs to a position of the payload. -/
def keyByte (key : Word) (i : Nat) : UInt8 := key.toList.getD (i % 4) 0

/-- A key that was turned by one byte is the key from its next position on. -/
theorem keyByte_turned (k0 k1 k2 k3 : UInt8) (i : Nat) :
    keyByte ⟨k1, k2, k3, k0⟩ i = keyByte ⟨k0, k1, k2, k3⟩ (i + 1) := by
  have hcases : i % 4 = 0 ∨ i % 4 = 1 ∨ i % 4 = 2 ∨ i % 4 = 3 := by omega
  unfold keyByte
  rcases hcases with h | h | h | h
  · rw [h, show (i + 1) % 4 = 1 by omega]
    rfl
  · rw [h, show (i + 1) % 4 = 2 by omega]
    rfl
  · rw [h, show (i + 1) % 4 = 3 by omega]
    rfl
  · rw [h, show (i + 1) % 4 = 0 by omega]
    rfl

/-- **Masking goes by positions.** -/
theorem mask_eq_mapIdx (key : Word) (payload : List UInt8) :
    mask key payload = payload.mapIdx fun i b => b ^^^ keyByte key i := by
  induction payload generalizing key with
  | nil => rfl
  | cons b rest ih =>
    have hturned : keyByte ⟨key.b1, key.b2, key.b3, key.b0⟩ = fun i => keyByte key (i + 1) := by
      funext i
      exact keyByte_turned key.b0 key.b1 key.b2 key.b3 i
    rw [mask, ih, List.mapIdx_cons, hturned]
    rfl

@[simp] theorem length_mask (key : Word) (bytes : List UInt8) :
    (mask key bytes).length = bytes.length := by
  rw [mask_eq_mapIdx, List.length_mapIdx]

/-- Masking twice with one key changes nothing. -/
@[simp] theorem mask_mask (key : Word) (bytes : List UInt8) :
    mask key (mask key bytes) = bytes := by
  induction bytes generalizing key with
  | nil => rfl
  | cons b bs ih =>
    rw [mask, mask, ih, UInt8.xor_assoc, UInt8.xor_self, UInt8.xor_zero]

end Frame

/-! ## 3. Whole frames -/

/-- A message on the wire. -/
def written (first : UInt8) (key : Word) (payload : List UInt8) : List UInt8 :=
  first :: UInt8.ofNat (0x80 + payload.length) ::
    (key.toList ++ payload.mapIdx fun i b => b ^^^ key.toList.getD (i % 4) 0)

/-- A message of a client, with what the client chooses for its frame. -/
structure ClientFrame where
  first : UInt8
  key : Word
  payload : List UInt8
  /-- the message is not continued -/
  final : first &&& 0x80 = 0x80
  /-- it is text or binary -/
  opcode : first &&& 0x0f = 1 ∨ first &&& 0x0f = 2
  short : payload.length ≤ 125

namespace ClientFrame

/-- The bytes of a frame. -/
def bytes (f : ClientFrame) : List UInt8 := written f.first f.key f.payload

/-- The second byte of a frame: the mask flag and the length. -/
def second (f : ClientFrame) : UInt8 := UInt8.ofNat (128 + f.payload.length)

/-- **A frame is a header and the payload as the board masks it.** -/
theorem bytes_eq (f : ClientFrame) :
    f.bytes = f.first :: f.second :: (f.key.toList ++ Frame.mask f.key f.payload) := by
  rw [Frame.mask_eq_mapIdx]
  rfl

theorem toNat_second (f : ClientFrame) : f.second.toNat = 128 + f.payload.length := by
  have hshort := f.short
  rw [second, UInt8.toNat_ofNat']
  exact Nat.mod_eq_of_lt (by omega)

/-- The header of a frame is accepted with the length of its payload. -/
theorem payloadLength_header (f : ClientFrame) :
    Frame.payloadLength f.first f.second = .ok f.payload.length := by
  have hshort := f.short
  have hfinal : Frame.flagged f.first = true := (Frame.flagged_iff f.first).mpr f.final
  have hflag : Frame.flagged f.second = true := by
    simp only [Frame.flagged, toNat_second, decide_eq_true_eq]
    omega
  have hlength : Frame.lengthOf f.second = f.payload.length := by
    rw [Frame.lengthOf, toNat_second]
    omega
  have hopcode : ¬ (Frame.opcodeOf f.first ≠ 1 ∧ Frame.opcodeOf f.first ≠ 2) := by
    rw [Frame.opcodeOf_eq_and]
    rintro ⟨h1, h2⟩
    exact f.opcode.elim h1 h2
  have hlimit : ¬ payloadLimit < f.payload.length := Nat.not_lt_of_le hshort
  simp only [Frame.payloadLength, hfinal, hflag, hlength, Bool.not_true, Bool.false_eq_true,
    if_false, if_neg hopcode, if_neg hlimit]

/-- **Reading a frame gives its payload back** and leaves what is behind it. -/
theorem read_bytes (f : ClientFrame) (rest : List UInt8) :
    Frame.read (f.bytes ++ rest) = ⟨.ok f.payload, rest⟩ := by
  have hlength : (Frame.mask f.key f.payload).length = f.payload.length :=
    Frame.length_mask f.key f.payload
  have htake : (Frame.mask f.key f.payload ++ rest).take f.payload.length =
      Frame.mask f.key f.payload := by rw [← hlength, List.take_left]
  have hdrop : (Frame.mask f.key f.payload ++ rest).drop f.payload.length = rest := by
    rw [← hlength, List.drop_left]
  simp only [bytes_eq, Word.toList, Frame.read, List.cons_append, List.nil_append,
    payloadLength_header, htake, hdrop, hlength, if_true, Frame.mask_mask]

end ClientFrame

/-! ## 4. Nothing but frames -/

/-- A header that is accepted has the final flag, an opcode for text or binary, the mask flag and
a short length. -/
theorem Frame.header_of_payloadLength {first second : UInt8} {length : Nat}
    (h : Frame.payloadLength first second = .ok length) :
    first &&& 0x80 = 0x80 ∧ (first &&& 0x0f = 1 ∨ first &&& 0x0f = 2) ∧
      second = UInt8.ofNat (128 + length) ∧ length ≤ 125 := by
  simp only [Frame.payloadLength] at h
  split at h
  · exact absurd h (by simp)
  · rename_i hfinal
    split at h
    · exact absurd h (by simp)
    · rename_i hopcode
      split at h
      · exact absurd h (by simp)
      · rename_i hmasked
        split at h
        · exact absurd h (by simp)
        · rename_i hshort
          rw [Except.ok.injEq] at h
          subst h
          have hflag : 128 ≤ second.toNat := by simpa [Frame.flagged] using hmasked
          have htop := second.toNat_lt
          have hsum : 128 + Frame.lengthOf second = second.toNat := by
            unfold Frame.lengthOf
            omega
          rw [← Frame.flagged_iff, ← Frame.opcodeOf_eq_and]
          refine ⟨by simpa using hfinal, ?_, ?_, Nat.le_of_not_lt hshort⟩
          · rcases Decidable.em (Frame.opcodeOf first = 1) with hone | hone
            · exact Or.inl hone
            · exact Or.inr (Decidable.not_not.mp fun htwo => hopcode ⟨hone, htwo⟩)
          · rw [hsum, UInt8.ofNat_toNat]

/-- **What is read is a frame** at the start of the stream. -/
theorem Frame.exists_frame_of_read {bytes payload rest : List UInt8}
    (h : Frame.read bytes = ⟨.ok payload, rest⟩) :
    ∃ f : ClientFrame, f.payload = payload ∧ bytes = f.bytes ++ rest := by
  unfold Frame.read at h
  split at h
  · rename_i first second behind
    split at h
    · exact absurd h (by simp)
    · rename_i length hheader
      split at h
      · rename_i k0 k1 k2 k3 body
        simp only at h
        split at h
        · rename_i hwhole
          simp only [Reading.mk.injEq, Except.ok.injEq] at h
          obtain ⟨rfl, rfl⟩ := h
          obtain ⟨hfinal, hopcode, hsecond, hshort⟩ := Frame.header_of_payloadLength hheader
          have hlength : (Frame.mask ⟨k0, k1, k2, k3⟩ (body.take length)).length = length := by
            rw [Frame.length_mask, hwhole]
          refine ⟨⟨first, ⟨k0, k1, k2, k3⟩, Frame.mask ⟨k0, k1, k2, k3⟩ (body.take length), hfinal,
            hopcode, by rw [hlength]; exact hshort⟩, rfl, ?_⟩
          simp only [ClientFrame.bytes_eq, ClientFrame.second, Word.toList, hlength, ← hsecond,
            Frame.mask_mask, List.cons_append, List.nil_append, List.take_append_drop]
        · exact absurd h (by simp)
      · exact absurd h (by simp)
  · exact absurd h (by simp)

theorem Frame.read_eq_ok_iff {bytes payload rest : List UInt8} :
    Frame.read bytes = ⟨.ok payload, rest⟩ ↔
      ∃ f : ClientFrame, f.payload = payload ∧ bytes = f.bytes ++ rest := by
  constructor
  · exact Frame.exists_frame_of_read
  · rintro ⟨f, rfl, rfl⟩
    exact f.read_bytes rest

/-- Two frames that streams start with are the same if the streams are. -/
theorem ClientFrame.eq_of_bytes_append {f g : ClientFrame} {rest last : List UInt8}
    (h : f.bytes ++ rest = g.bytes ++ last) : f = g ∧ rest = last := by
  have hread := f.read_bytes rest
  rw [h, g.read_bytes last, Reading.mk.injEq, Except.ok.injEq] at hread
  obtain ⟨hpayload, rfl⟩ := hread
  have hbytes : f.bytes = g.bytes := List.append_cancel_right h
  simp only [ClientFrame.bytes_eq, Word.toList, List.cons_append, List.cons.injEq] at hbytes
  obtain ⟨hfirst, -, h0, h1, h2, h3, -⟩ := hbytes
  obtain ⟨first, ⟨k0, k1, k2, k3⟩, payload, final, opcode, short⟩ := f
  obtain ⟨first', ⟨l0, l1, l2, l3⟩, payload', final', opcode', short'⟩ := g
  simp only at hfirst hpayload h0 h1 h2 h3
  subst hfirst hpayload h0 h1 h2 h3
  exact ⟨rfl, rfl⟩

/-! ## 5. More bytes -/

namespace Frame

/-- A message that was read is read again when more bytes follow, and they are left. -/
theorem read_append_of_ok {bytes payload rest : List UInt8}
    (h : read bytes = ⟨.ok payload, rest⟩) (more : List UInt8) :
    read (bytes ++ more) = ⟨.ok payload, rest ++ more⟩ := by
  unfold read at h
  split at h
  · rename_i first second behind
    split at h
    · exact absurd h (by simp)
    · rename_i length hheader
      split at h
      · rename_i k0 k1 k2 k3 body
        simp only at h
        split at h
        · rename_i hwhole
          rw [List.length_take] at hwhole
          have hfits : length ≤ body.length := by omega
          simp only [Reading.mk.injEq, Except.ok.injEq] at h
          obtain ⟨rfl, rfl⟩ := h
          simp only [read, List.cons_append, hheader, List.take_append_of_le_length hfits,
            List.drop_append_of_le_length hfits, List.length_take, Nat.min_eq_left hfits, if_true]
        · exact absurd h (by simp)
      · exact absurd h (by simp)
  · exact absurd h (by simp)

/-- A header that breaks the protocol is refused again when more bytes follow. -/
theorem read_append_of_fault {bytes rest : List UInt8} {fault : Fault}
    (h : read bytes = ⟨.error fault, rest⟩) (hfault : fault.isProtocolFault = true)
    (more : List UInt8) : read (bytes ++ more) = ⟨.error fault, rest ++ more⟩ := by
  unfold read at h
  split at h
  · rename_i first second behind
    split at h
    · rename_i cause hheader
      simp only [Reading.mk.injEq, Except.error.injEq] at h
      obtain ⟨rfl, rfl⟩ := h
      simp only [read, List.cons_append, hheader]
    · split at h
      · simp only at h
        split at h
        · exact absurd h (by simp)
        · simp only [Reading.mk.injEq, Except.error.injEq] at h
          exact absurd hfault (by simp [← h.1, Fault.isProtocolFault])
      · simp only [Reading.mk.injEq, Except.error.injEq] at h
        exact absurd hfault (by simp [← h.1, Fault.isProtocolFault])
  · simp only [Reading.mk.injEq, Except.error.injEq] at h
    exact absurd hfault (by simp [← h.1, Fault.isProtocolFault])

end Frame

end Ledboard.Wire
