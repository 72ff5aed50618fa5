/-
# Listings and the bytes they list

A listing of the bytes of canonical instructions finds these instructions again, one behind another
(`listing_reads_back`).  Bytes that nobody encoded have a listing as well, and it is a normal form
of them (`listing_normalises`): encoding what it finds gives the bytes back, but for the bits of a
register's byte that do not count and for the zeros that a last instruction lacks, and these bytes
have the same listing.

* **Places** (`laidOut`).  Instructions one behind another lie at the sums of the widths before
  them.  So do the rows of a listing (`Lists.eq_laidOut`), and a listing of canonical instructions
  gives them these places (`listingFrom_encodeAll`).
* **Bytes** (`Lists.getD_encodeAll`).  Each byte of an instruction is decoded from the byte at its
  own place.
-/
import Mathlib.Data.List.GetD
import Ledboard.Instruction.Listing
import Ledboard.Proofs.Encoding

namespace Ledboard.Instruction

variable {is : List Instruction} {i : Instruction} {start k : Nat} {bytes : List UInt8}
  {row : Nat × Instruction}

/-! ## 1. Places -/

/-- How many bytes some instructions take together. -/
def totalWidth (is : List Instruction) : Nat := is.foldr (fun i n => i.width + n) 0

theorem totalWidth_nil : totalWidth [] = 0 := rfl

theorem totalWidth_cons (i : Instruction) (is : List Instruction) :
    totalWidth (i :: is) = i.width + totalWidth is := rfl

/-- Instructions one behind another from an address on, each with its address. -/
def laidOut (start : Nat) (is : List Instruction) : List (Nat × Instruction) :=
  is.mapIdx fun k i => (start + totalWidth (is.take k), i)

theorem laidOut_cons (start : Nat) (i : Instruction) (is : List Instruction) :
    laidOut start (i :: is) = (start, i) :: laidOut (start + i.width) is := by
  simp only [laidOut, List.mapIdx_cons, List.take_succ_cons, List.take_zero, totalWidth_nil,
    totalWidth_cons, Nat.add_zero, Nat.add_assoc]

theorem encodeAll_cons (i : Instruction) (is : List Instruction) :
    encodeAll (i :: is) = i.encode ++ encodeAll is := List.flatMap_cons

theorem length_encodeAll (is : List Instruction) : (encodeAll is).length = totalWidth is := by
  induction is with
  | nil => rfl
  | cons i is ih =>
    rw [encodeAll_cons, List.length_append, length_encode, ih, totalWidth_cons]

/-- The first of some instructions lies where they start. -/
theorem address_of_head? (h : (laidOut start is).head? = some row) : row.1 = start := by
  cases is with
  | nil => exact absurd h (by simp [laidOut])
  | cons i is =>
    rw [laidOut_cons, List.head?_cons] at h
    rw [← Option.some.inj h]

/-- Instructions one behind another leave no gap. -/
theorem address_of_next {a b : Nat × Instruction} (h : [a, b] <:+: laidOut start is) :
    b.1 = a.1 + a.2.width := by
  induction is generalizing start with
  | nil => exact absurd (List.infix_nil.mp h) (List.cons_ne_nil _ _)
  | cons i is ih =>
    rw [laidOut_cons] at h
    rcases List.infix_cons_iff.mp h with hfirst | hlater
    · obtain ⟨rfl, hb⟩ := List.cons_prefix_cons.mp hfirst
      cases is with
      | nil => exact absurd (List.prefix_nil.mp hb) (List.cons_ne_nil _ _)
      | cons j is =>
        rw [laidOut_cons] at hb
        obtain ⟨rfl, -⟩ := List.cons_prefix_cons.mp hb
        rfl
    · exact ih hlater

/-- The last of them ends where all of them end. -/
theorem address_of_getLast? (h : (laidOut start is).getLast? = some row) :
    row.1 + row.2.width = start + totalWidth is := by
  induction is generalizing start with
  | nil => exact absurd h (by simp [laidOut])
  | cons i is ih =>
    rw [laidOut_cons, List.getLast?_cons, Option.some.injEq] at h
    rw [totalWidth_cons, ← Nat.add_assoc]
    cases hlast : (laidOut (start + i.width) is).getLast? with
    | none =>
      have hnil : is = [] := by
        simpa [laidOut] using List.getLast?_eq_none_iff.mp hlast
      rw [hlast] at h
      subst hnil
      rw [← h]
      rfl
    | some last =>
      rw [hlast, Option.getD_some] at h
      exact ih (hlast.trans (congrArg some h))

/-! ## 2. Listings of instructions -/

/-- A listing takes a canonical instruction off the bytes. -/
theorem listingFrom_encode_append (hi : i.Canonical) (start : Nat) (rest : List UInt8) :
    listingFrom start (i.encode ++ rest) = (start, i) :: listingFrom (start + i.width) rest := by
  have hdecode := decode_encode_append hi rest
  have hdrop : (i.encode ++ rest).drop i.width = rest := by
    rw [← length_encode]
    exact List.drop_left
  cases hbytes : i.encode ++ rest with
  | nil =>
    have hpos := i.width_pos
    rw [← length_encode, (List.append_eq_nil_iff.mp hbytes).1] at hpos
    exact absurd hpos (Nat.lt_irrefl 0)
  | cons b bs =>
    rw [hbytes] at hdecode hdrop
    simp only [listingFrom, hdecode, hdrop]

/-- **A listing finds canonical instructions again**, one behind another. -/
theorem listingFrom_encodeAll (h : ∀ i ∈ is, i.Canonical) (start : Nat) :
    listingFrom start (encodeAll is) = laidOut start is := by
  induction is generalizing start with
  | nil => rw [encodeAll, List.flatMap_nil, listingFrom, laidOut, List.mapIdx_nil]
  | cons i is ih =>
    obtain ⟨hi, hlater⟩ := List.forall_mem_cons.mp h
    rw [encodeAll_cons, listingFrom_encode_append hi, ih hlater, laidOut_cons]

/-! ## 3. Listings of bytes -/

theorem width_le (i : Instruction) : i.width ≤ 5 := by
  cases i <;> simp [width]

/-- Rows that list some bytes from an address on: an instruction is decoded from the bytes that are
there, and the next row lists what is behind it. -/
inductive Lists : Nat → List UInt8 → List (Nat × Instruction) → Prop where
  | nil (start : Nat) : Lists start [] []
  | cons {start : Nat} {bytes : List UInt8} {rows : List (Nat × Instruction)} {i : Instruction}
      (hbytes : 0 < bytes.length) (hi : decode bytes = i)
      (hrest : Lists (start + i.width) (bytes.drop i.width) rows) :
      Lists start bytes ((start, i) :: rows)

theorem lists_listingFrom (start : Nat) (bytes : List UInt8) :
    Lists start bytes (listingFrom start bytes) := by
  induction start, bytes using listingFrom.induct with
  | case1 start =>
    rw [listingFrom]
    exact .nil start
  | case2 start b bs i ih =>
    rw [listingFrom]
    exact .cons (Nat.zero_lt_succ _) rfl ih

namespace Lists

variable {rows : List (Nat × Instruction)}

/-- What a listing finds can be read back. -/
theorem canonical (h : Lists start bytes rows) : ∀ i ∈ rows.map Prod.snd, i.Canonical := by
  induction h with
  | nil => exact List.forall_mem_nil _
  | @cons start bytes rows i hbytes hi hrest ih =>
    rw [List.map_cons, List.forall_mem_cons]
    exact ⟨hi ▸ (spelled_decode bytes).canonical, ih⟩

/-- **The rows lie one behind another.** -/
theorem eq_laidOut (h : Lists start bytes rows) : rows = laidOut start (rows.map Prod.snd) := by
  induction h with
  | nil => rfl
  | cons hbytes hi hrest ih => rw [List.map_cons, laidOut_cons, ← ih]

/-- Each row starts within the bytes, and is decoded where it starts. -/
theorem decode_of_row (h : Lists start bytes rows) (hrow : row ∈ rows) :
    ∃ k, row.1 = start + k ∧ k < bytes.length ∧ row.2 = decode (bytes.drop k) := by
  induction h with
  | nil => exact absurd hrow (by simp)
  | @cons start bytes rows i hbytes hi hrest ih =>
    rcases List.mem_cons.mp hrow with rfl | hlater
    · exact ⟨0, rfl, hbytes, hi.symm⟩
    · obtain ⟨k, haddress, hwithin, hdecode⟩ := ih hlater
      rw [List.length_drop] at hwithin
      rw [List.drop_drop] at hdecode
      exact ⟨i.width + k, by rw [haddress, Nat.add_assoc], by omega, hdecode⟩

/-- There is at most one row for each byte. -/
theorem length_le (h : Lists start bytes rows) : rows.length ≤ bytes.length := by
  induction h with
  | nil => exact Nat.le_refl 0
  | @cons start bytes rows i hbytes hi hrest ih =>
    have hpos : 0 < i.width := i.width_pos
    rw [List.length_drop] at ih
    rw [List.length_cons]
    omega

/-- There are no rows only where there are no bytes. -/
theorem rows_eq_nil_iff (h : Lists start bytes rows) : rows = [] ↔ bytes = [] := by
  cases h with
  | nil => exact ⟨fun _ => rfl, fun _ => rfl⟩
  | cons hbytes hi hrest =>
    constructor
    · intro hrows
      exact absurd hrows (List.cons_ne_nil _ _)
    · intro hnone
      rw [hnone] at hbytes
      exact absurd hbytes (Nat.lt_irrefl 0)

/-- The rows take all bytes, and a last instruction at most four more. -/
theorem totalWidth_bounds (h : Lists start bytes rows) :
    bytes.length ≤ totalWidth (rows.map Prod.snd) ∧
      totalWidth (rows.map Prod.snd) ≤ bytes.length + 4 := by
  induction h with
  | nil => exact ⟨Nat.le_refl 0, Nat.zero_le 4⟩
  | @cons start bytes rows i hbytes hi hrest ih =>
    have hwidth : i.width ≤ 5 := i.width_le
    rw [List.length_drop] at ih
    simp only [List.map_cons, totalWidth_cons]
    rcases Nat.lt_or_ge i.width bytes.length with hinside | hbehind
    · omega
    · have hrows : rows = [] := hrest.rows_eq_nil_iff.mpr (List.drop_of_length_le hbehind)
      subst hrows
      rw [List.map_nil, totalWidth_nil]
      omega

end Lists

/-! ## 4. Bytes -/

/-- Whether a place in a listing holds the register number of an instruction. -/
def HoldsRegister (rows : List (Nat × Instruction)) (k : Nat) : Prop :=
  ∃ row ∈ rows, row.2.namesRegister = true ∧ row.1 + 1 = k

instance (rows : List (Nat × Instruction)) (k : Nat) : Decidable (HoldsRegister rows k) :=
  inferInstanceAs (Decidable (∃ row ∈ rows, row.2.namesRegister = true ∧ row.1 + 1 = k))

theorem holdsRegister_cons {rows : List (Nat × Instruction)} :
    HoldsRegister ((start, i) :: rows) k ↔
      (i.namesRegister = true ∧ start + 1 = k) ∨ HoldsRegister rows k := by
  simp only [HoldsRegister, List.mem_cons, exists_eq_or_imp]

theorem width_of_namesRegister (h : i.namesRegister = true) : i.width = 2 := by
  cases i with
  | pushReg => rfl
  | popReg => rfl
  | _ => exact absurd h Bool.false_ne_true

namespace Lists

variable {rows : List (Nat × Instruction)}

/-- A register number stands behind the first byte of its instruction. -/
theorem lt_of_holdsRegister (h : Lists start bytes rows) (hk : HoldsRegister rows k) :
    start < k := by
  obtain ⟨row, hrow, -, rfl⟩ := hk
  obtain ⟨j, haddress, -⟩ := h.decode_of_row hrow
  omega

/-- **Each byte comes from the byte at its own place**, and is kept up to the bits of a register's
byte that do not count. -/
theorem getD_encodeAll (h : Lists start bytes rows)
    (hk : k < (encodeAll (rows.map Prod.snd)).length) :
    (encodeAll (rows.map Prod.snd)).getD k 0 =
      if HoldsRegister rows (start + k) then bytes.getD k 0 &&& 0x1f else bytes.getD k 0 := by
  induction h generalizing k with
  | nil => exact absurd hk (Nat.not_lt_zero k)
  | @cons start bytes rows i hbytes hi hrest ih =>
    simp only [List.map_cons, encodeAll_cons] at hk ⊢
    rcases Nat.lt_or_ge k i.width with hinside | hbehind
    · have hspelled : Spelled (fun k => bytes.getD k 0) i := hi ▸ spelled_decode bytes
      have hplace : k = 1 ∧ i.namesRegister = true ↔
          HoldsRegister ((start, i) :: rows) (start + k) := by
        rw [holdsRegister_cons]
        constructor
        · rintro ⟨rfl, hregister⟩
          exact Or.inl ⟨hregister, rfl⟩
        · rintro (⟨hregister, haddress⟩ | hlater)
          · exact ⟨(Nat.add_left_cancel haddress).symm, hregister⟩
          · have hstart := hrest.lt_of_holdsRegister hlater
            omega
      rw [List.getD_append _ _ _ _ (by rwa [length_encode]), hspelled.encode_eq,
        List.getD_eq_getElem?_getD, List.getElem?_map, List.getElem?_range hinside]
      exact if_congr hplace rfl rfl
    · have hplace : HoldsRegister rows (start + i.width + (k - i.width)) ↔
          HoldsRegister ((start, i) :: rows) (start + k) := by
        rw [holdsRegister_cons, show start + i.width + (k - i.width) = start + k by omega]
        constructor
        · exact Or.inr
        · rintro (⟨hregister, haddress⟩ | hlater)
          · have hwidth := width_of_namesRegister hregister
            omega
          · exact hlater
      rw [List.length_append, length_encode] at hk
      rw [List.getD_append_right _ _ _ _ (by rwa [length_encode]), length_encode,
        ih (by omega), List.getD_eq_getElem?_getD, List.getElem?_drop,
        Nat.add_sub_cancel' hbehind, ← List.getD_eq_getElem?_getD]
      exact if_congr hplace rfl rfl

end Lists

/-! ## 5. The whole -/

/-- **Decoding undoes encoding over whole programs.**  A listing of what canonical instructions
encode is these instructions, each with the sum of the widths before it, so all addresses lie within
the bytes.  Each instruction is encoded in as many bytes as its width says, and is decoded from them
whatever follows. -/
theorem listing_reads_back (h : ∀ i ∈ is, i.Canonical) :
    listing (encodeAll is) = is.mapIdx (fun k i => (totalWidth (is.take k), i)) ∧
      (encodeAll is).length = totalWidth is ∧
      (∀ row ∈ listing (encodeAll is), row.1 < totalWidth is) ∧
      ∀ i ∈ is, i.encode.length = i.width ∧ ∀ rest, decode (i.encode ++ rest) = i := by
  have hlisting : listing (encodeAll is) = laidOut 0 is := listingFrom_encodeAll h 0
  refine ⟨?_, length_encodeAll is, ?_, ?_⟩
  · rw [hlisting, laidOut]
    simp only [Nat.zero_add]
  · intro row hrow
    obtain ⟨k, haddress, hwithin, -⟩ := (lists_listingFrom 0 (encodeAll is)).decode_of_row hrow
    rw [length_encodeAll] at hwithin
    omega
  · intro i hi
    exact ⟨length_encode i, decode_encode_append (h i hi)⟩

/-- Instructions of every width, with a number, a register and a displacement that use all their
bits. -/
theorem listing_reads_back_of_widths :
    let is : List Instruction :=
      [.pushInt (-2), .popReg 31, .unknown 255, .jumpIfLess (-32768), .halt]
    (∀ i ∈ is, i.Canonical) ∧
      listing [2, 255, 255, 255, 254, 3, 31, 255, 6, 128, 0, 0] =
        [(0, .pushInt (-2)), (5, .popReg 31), (7, .unknown 255), (8, .jumpIfLess (-32768)),
          (11, .halt)] := by
  intro is
  have hcanonical : ∀ i ∈ is, i.Canonical := by simp [is, Canonical, registerCount]
  exact ⟨hcanonical, (listing_reads_back hcanonical).1⟩

/-- Rows that take some bytes apart: one behind another, from the start of the bytes to their end.
-/
structure Tiles (bytes : List UInt8) (rows : List (Nat × Instruction)) : Prop where
  first : ∀ row, rows.head? = some row → row.1 = 0
  next : ∀ a b, [a, b] <:+: rows → b.1 = a.1 + a.2.width
  /-- the last row starts within the bytes, and may end behind them -/
  last : ∀ row, rows.getLast? = some row → row.1 < bytes.length ∧
    bytes.length ≤ row.1 + row.2.width ∧ row.1 + row.2.width ≤ bytes.length + 4
  nil_iff : rows = [] ↔ bytes = []
  /-- each instruction is spelled where its row starts -/
  decoded : ∀ row ∈ rows, row.2 = decode (bytes.drop row.1)

theorem tiles_listing (bytes : List UInt8) : Tiles bytes (listing bytes) := by
  have hlists : Lists 0 bytes (listing bytes) := lists_listingFrom 0 bytes
  have hplaces := hlists.eq_laidOut
  have hwidths := hlists.totalWidth_bounds
  constructor
  case first =>
    intro row hrow
    exact address_of_head? (hplaces ▸ hrow)
  case next =>
    intro a b hrows
    exact address_of_next (hplaces ▸ hrows)
  case last =>
    intro row hrow
    obtain ⟨k, haddress, hwithin, -⟩ := hlists.decode_of_row (List.mem_of_getLast? hrow)
    have hend := address_of_getLast? (hplaces ▸ hrow)
    omega
  case nil_iff => exact hlists.rows_eq_nil_iff
  case decoded =>
    intro row hrow
    obtain ⟨k, haddress, -, hdecode⟩ := hlists.decode_of_row hrow
    rw [hdecode, haddress, Nat.zero_add]

/-- **A listing is a normal form of the bytes.**  For every byte string:

* the listing ends, with at most one row for each byte, and its rows tile the bytes;
* encoding its instructions gives the bytes back, with zeros behind them up to the end of the last
  instruction, and with the low five bits only of each byte that holds a register number;
* what is encoded has the same listing, so encoding that listing changes nothing any more. -/
theorem listing_normalises (bytes : List UInt8) :
    let rows := listing bytes
    let encoded := encodeAll (rows.map Prod.snd)
    (rows.length ≤ bytes.length ∧ Tiles bytes rows) ∧
      (bytes.length ≤ encoded.length ∧ encoded.length ≤ bytes.length + 4 ∧
        ∀ k < encoded.length, encoded.getD k 0 =
          if HoldsRegister rows k then bytes.getD k 0 &&& 0x1f else bytes.getD k 0) ∧
      listing encoded = rows ∧ encodeAll ((listing encoded).map Prod.snd) = encoded := by
  intro rows encoded
  have hlists : Lists 0 bytes rows := lists_listingFrom 0 bytes
  have hsame : listing encoded = rows :=
    (listingFrom_encodeAll hlists.canonical 0).trans hlists.eq_laidOut.symm
  have hlength : encoded.length = totalWidth (rows.map Prod.snd) := length_encodeAll _
  obtain ⟨hleast, hmost⟩ := hlists.totalWidth_bounds
  refine ⟨⟨hlists.length_le, tiles_listing bytes⟩, ⟨hlength ▸ hleast, hlength ▸ hmost, ?_⟩, hsame,
    by rw [hsame]⟩
  intro k hk
  have hbyte := hlists.getD_encodeAll hk
  rw [Nat.zero_add] at hbyte
  exact hbyte

/-- A register's byte with all bits, and a jump that lacks its last byte. -/
example :
    listing [3, 255, 6, 1] = [(0, .popReg 31), (2, .jumpIfLess 256)] ∧
      encodeAll ((listing [3, 255, 6, 1]).map Prod.snd) = [3, 31, 6, 1, 0] := by
  decide +kernel

end Ledboard.Instruction
