/-
# RAM remembers what was stored last

RAM takes programs of any length and words at any offset, so what is stored may overlap what was
stored before in any way, and may reach past the end of the buffer.  All the same each place of the
buffer is a cell of its own: it holds the byte that was stored there last, or zero
(`remembers_last_store`).

Words and programs are stored alike (`apply_eq_load`), so one law does for both: storing bytes
changes the places that they cover and no others (`byteAt_load`).  Whatever comes behind the last
operation that covers a place leaves the place alone (`byteAt_applyAll_of_not_covers`).
-/
import Ledboard.Proofs.RamContents

namespace Ledboard.Ram

/-! ## 1. Histories -/

/-- What is stored in a RAM, and from which offset on. -/
inductive Operation where
  | load (offset : Nat) (bytes : List UInt8)
  | write (offset : Nat) (word : Word)
  deriving DecidableEq, Repr

namespace Operation

def offset : Operation → Nat
  | .load offset _ => offset
  | .write offset _ => offset

def bytes : Operation → List UInt8
  | .load _ bytes => bytes
  | .write _ word => word.toList

/-- Whether one of the bytes falls on a place, be it inside of the buffer or past its end. -/
def Covers (op : Operation) (place : Nat) : Prop :=
  op.offset ≤ place ∧ place < op.offset + op.bytes.length

instance (op : Operation) (place : Nat) : Decidable (op.Covers place) :=
  inferInstanceAs (Decidable (_ ∧ _))

end Operation

/-- Carries out an operation. -/
def apply (ram : Ram) : Operation → Ram
  | .load offset bytes => ram.load offset bytes
  | .write offset word => ram.write offset word

/-- Carries out operations, one after another. -/
def applyAll (ram : Ram) (ops : List Operation) : Ram := ops.foldl apply ram

/-- The byte that was stored last at a place: an operation covers the place with it, and no later
one covers the place. -/
def LastStored (ops : List Operation) (place : Nat) (b : UInt8) : Prop :=
  ∃ before op after, ops = before ++ op :: after ∧ op.Covers place ∧
    op.bytes[place - op.offset]? = some b ∧ ∀ later ∈ after, ¬ later.Covers place

/-- What a RAM of a size shows at a place after some operations. -/
inductive Remembered (size : Nat) (ops : List Operation) (place : Nat) : UInt8 → Prop where
  | stored {b : UInt8} (hplace : place < size + 3) (h : LastStored ops place b) :
      Remembered size ops place b
  | untouched (h : ∀ op ∈ ops, ¬ op.Covers place) : Remembered size ops place 0
  | beyond (hplace : size + 3 ≤ place) : Remembered size ops place 0

variable {ram : Ram} {op : Operation} {ops : List Operation} {size offset place k : Nat} {b : UInt8}

/-! ## 2. One operation -/

theorem apply_eq_load (ram : Ram) (op : Operation) : ram.apply op = ram.load op.offset op.bytes := by
  cases op <;> rfl

theorem capacity_apply (ram : Ram) (op : Operation) : (ram.apply op).capacity = ram.capacity := by
  cases op <;> rfl

theorem byteAt_apply_of_not_covers (h : ¬ op.Covers place) :
    (ram.apply op).byteAt place = ram.byteAt place := by
  rw [apply_eq_load, byteAt_load, if_neg (fun hin => h ⟨hin.1, hin.2.1⟩)]

theorem byteAt_apply_of_covers (h : op.Covers place) (hplace : place < ram.capacity)
    (hb : op.bytes[place - op.offset]? = some b) : (ram.apply op).byteAt place = b := by
  rw [apply_eq_load, byteAt_load, if_pos ⟨h.1, h.2, hplace⟩, List.getD_eq_getElem?_getD, hb]
  rfl

/-- Past the end there is no room, so nothing is stored. -/
theorem apply_of_beyond (h : ram.capacity ≤ op.offset) : ram.apply op = ram := by
  have hroom : ram.room op.offset op.bytes.length = 0 := by
    unfold room
    omega
  rw [apply_eq_load, load, hroom]
  rfl

/-- **There is room for the bytes that fall into the buffer**, and for no others. -/
theorem room_eq_countP (ram : Ram) (offset count : Nat) :
    ram.room offset count =
      (List.range count).countP (fun k => decide (offset + k < ram.capacity)) := by
  induction count with
  | zero => exact Nat.zero_min _
  | succ count ih =>
    rw [List.range_succ, List.countP_append, ← ih, List.countP_singleton]
    simp only [room, decide_eq_true_eq]
    split <;> omega

/-- The buffer, place by place. -/
theorem getElem?_bytes (h : place < ram.capacity) : ram.bytes[place]? = some (ram.byteAt place) := by
  have hcount : place < min ram.capacity (ram.capacity - 0) := by omega
  rw [Ram.bytes, slice, List.getElem?_map, List.getElem?_range hcount, Option.map_some,
    Nat.zero_add]

theorem length_bytes (ram : Ram) : ram.bytes.length = ram.capacity := by
  rw [Ram.bytes, slice, List.length_map, List.length_range, Nat.sub_zero, Nat.min_self]

/-- **Loading stores exactly the bytes that fall into the buffer.** -/
theorem getElem?_bytes_load (ram : Ram) (offset : Nat) (bytes : List UInt8)
    (h : place < ram.capacity) :
    (ram.load offset bytes).bytes[place]? =
      if offset ≤ place ∧ place < offset + bytes.length then bytes[place - offset]?
      else ram.bytes[place]? := by
  have hcapacity : place < (ram.load offset bytes).capacity := h
  rw [getElem?_bytes hcapacity, getElem?_bytes h, byteAt_load]
  by_cases hcover : offset ≤ place ∧ place < offset + bytes.length
  · have hin : place - offset < bytes.length := by omega
    rw [if_pos hcover, if_pos ⟨hcover.1, hcover.2, h⟩, List.getD_eq_getElem?_getD,
      List.getElem?_eq_getElem hin, Option.getD_some]
  · rw [if_neg hcover, if_neg (fun hin => hcover ⟨hin.1, hin.2.1⟩)]

/-- The bytes of a word are those at four places in a row. -/
theorem getElem?_read (ram : Ram) (offset : Nat) (hk : k < 4) :
    (ram.read offset).toList[k]? = some (ram.byteAt (offset + k)) := by
  have hcases : k = 0 ∨ k = 1 ∨ k = 2 ∨ k = 3 := by omega
  rcases hcases with rfl | rfl | rfl | rfl <;> rfl

/-- A word that starts within the size of a RAM lies in its buffer, so it is read as it was
written. -/
theorem read_write (word : Word) (h : offset < ram.size) :
    (ram.write offset word).read offset = word := by
  have hbyte : ∀ k < 4, (ram.write offset word).byteAt (offset + k) = word.toList.getD k 0 := by
    intro k hk
    have hin : offset + k < ram.capacity := by
      simp only [capacity, padding, Word.size]
      omega
    rw [write, byteAt_load, Word.length_toList, if_pos ⟨by omega, by omega, hin⟩,
      Nat.add_sub_cancel_left]
  have hfirst : (ram.write offset word).byteAt offset = word.toList.getD 0 0 := hbyte 0 (by decide)
  rw [read, hfirst, hbyte 1 (by decide), hbyte 2 (by decide), hbyte 3 (by decide)]
  rfl

/-! ## 3. Any number of operations -/

theorem capacity_applyAll (ram : Ram) (ops : List Operation) :
    (ram.applyAll ops).capacity = ram.capacity := by
  induction ops generalizing ram with
  | nil => rfl
  | cons op ops ih => exact (ih (ram.apply op)).trans (capacity_apply ram op)

/-- Operations that do not cover a place leave it alone. -/
theorem byteAt_applyAll_of_not_covers (h : ∀ op ∈ ops, ¬ op.Covers place) :
    (ram.applyAll ops).byteAt place = ram.byteAt place := by
  induction ops generalizing ram with
  | nil => rfl
  | cons op ops ih =>
    obtain ⟨hfirst, hlater⟩ := List.forall_mem_cons.mp h
    exact (ih hlater).trans (byteAt_apply_of_not_covers hfirst)

theorem byteAt_of_beyond (h : ram.capacity ≤ place) : ram.byteAt place = 0 :=
  if_neg (Nat.not_lt_of_le h)

/-- What was stored last is there. -/
theorem byteAt_applyAll_of_lastStored (h : LastStored ops place b) (hplace : place < ram.capacity) :
    (ram.applyAll ops).byteAt place = b := by
  obtain ⟨before, op, after, rfl, hcovers, hb, hafter⟩ := h
  rw [applyAll, List.foldl_append, List.foldl_cons]
  refine (byteAt_applyAll_of_not_covers hafter).trans ?_
  exact byteAt_apply_of_covers hcovers (capacity_applyAll ram before ▸ hplace) hb

/-- Some operation is the last that covers a place, if any does. -/
theorem exists_lastStored (h : ∃ op ∈ ops, op.Covers place) : ∃ b, LastStored ops place b := by
  induction ops with
  | nil => exact absurd h (by simp)
  | cons op rest ih =>
    by_cases hlater : ∃ op ∈ rest, op.Covers place
    · obtain ⟨b, before, last, after, hrest, hlast⟩ := ih hlater
      exact ⟨b, op :: before, last, after, by rw [hrest, List.cons_append], hlast⟩
    · obtain ⟨op', hmem, hcovers⟩ := h
      rcases List.mem_cons.mp hmem with rfl | hmem
      · have hin : place - op'.offset < op'.bytes.length := by
          have hbounds : op'.offset ≤ place ∧ place < op'.offset + op'.bytes.length := hcovers
          omega
        exact ⟨op'.bytes[place - op'.offset], [], op', rest, rfl, hcovers,
          List.getElem?_eq_getElem hin, fun later hmem hcover => hlater ⟨later, hmem, hcover⟩⟩
      · exact absurd ⟨op', hmem, hcovers⟩ hlater

theorem byteAt_of_remembered (h : Remembered size ops place b) :
    ((ofSize size).applyAll ops).byteAt place = b := by
  cases h with
  | stored hplace hlast => exact byteAt_applyAll_of_lastStored hlast hplace
  | untouched hnone => rw [byteAt_applyAll_of_not_covers hnone, byteAt_ofSize]
  | beyond hplace =>
    refine byteAt_of_beyond ?_
    rw [capacity_applyAll]
    exact hplace

theorem exists_remembered (size : Nat) (ops : List Operation) (place : Nat) :
    ∃ b, Remembered size ops place b := by
  by_cases hplace : place < size + 3
  · by_cases hcovers : ∃ op ∈ ops, op.Covers place
    · obtain ⟨b, hlast⟩ := exists_lastStored hcovers
      exact ⟨b, .stored hplace hlast⟩
    · exact ⟨0, .untouched fun op hmem hcover => hcovers ⟨op, hmem, hcover⟩⟩
  · exact ⟨0, .beyond (Nat.le_of_not_lt hplace)⟩

/-- **Each place shows the byte that was stored there last**, and nothing else. -/
theorem byteAt_applyAll_eq_iff :
    ((ofSize size).applyAll ops).byteAt place = b ↔ Remembered size ops place b := by
  refine ⟨fun h => ?_, byteAt_of_remembered⟩
  obtain ⟨shown, hshown⟩ := exists_remembered size ops place
  rwa [← h, byteAt_of_remembered hshown]

/-- **A RAM is one cell for each byte.**  Whatever was loaded into a new RAM and written to it, at
whatever offsets:

* its buffer has three bytes more than its size;
* as many bytes of a program fit as fall into the buffer, and just these are stored;
* a word shows at each of its places the byte that was stored there last, zero where none was, and
  zero past the buffer;
* a word that is written within the size of the RAM is read back;
* what lies wholly past the buffer changes nothing. -/
theorem remembers_last_store (size : Nat) (ops : List Operation) :
    let ram := (ofSize size).applyAll ops
    ram.bytes.length = size + 3 ∧
      (∀ offset bytes,
        ram.room offset bytes.length =
          (List.range bytes.length).countP (fun k => decide (offset + k < size + 3)) ∧
        ∀ place < size + 3, (ram.load offset bytes).bytes[place]? =
          if offset ≤ place ∧ place < offset + bytes.length then bytes[place - offset]?
          else ram.bytes[place]?) ∧
      (∀ offset, ∀ k < 4, ∀ b,
        (ram.read offset).toList[k]? = some b ↔ Remembered size ops (offset + k) b) ∧
      (∀ offset < size, ∀ word, (ram.write offset word).read offset = word) ∧
      ∀ op : Operation, size + 3 ≤ op.offset → ram.apply op = ram := by
  intro ram
  have hcapacity : ram.capacity = size + 3 := capacity_applyAll (ofSize size) ops
  refine ⟨?_, ?_, ?_, ?_, ?_⟩
  · rw [length_bytes, hcapacity]
  · intro offset bytes
    rw [← hcapacity]
    exact ⟨room_eq_countP ram offset bytes.length,
      fun place hplace => getElem?_bytes_load ram offset bytes hplace⟩
  · intro offset k hk b
    rw [getElem?_read ram offset hk, Option.some.injEq]
    exact byteAt_applyAll_eq_iff
  · intro offset hoffset word
    have hsize : ram.size = size := Nat.add_right_cancel hcapacity
    exact read_write word (hsize ▸ hoffset)
  · intro op hop
    exact apply_of_beyond (hcapacity ▸ hop)

/-- In a RAM of six bytes, a word over the end of a program, a word that ends with the buffer, a
program cut by the end of it, and a word past it. -/
theorem remembers_last_store_of_overlap :
    let ops : List Operation :=
      [.load 0 [1, 2, 3], .write 5 ⟨4, 5, 6, 7⟩, .write 2 ⟨8, 9, 10, 11⟩, .load 7 [12, 13, 14, 15],
        .write 9 ⟨16, 17, 18, 19⟩]
    let ram := (ofSize 6).applyAll ops
    (ram.read 1 = ⟨2, 8, 9, 10⟩ ∧ Remembered 6 ops 2 8) ∧
      (ram.read 6 = ⟨5, 12, 13, 0⟩ ∧ Remembered 6 ops 9 0) ∧
      ram.room 7 4 = 2 ∧ (ram.write 5 ⟨1, 1, 1, 1⟩).read 5 = ⟨1, 1, 1, 1⟩ ∧
      ram.apply (.write 9 ⟨1, 1, 1, 1⟩) = ram := by
  intro ops ram
  obtain ⟨-, hload, hread, hwrite, hbeyond⟩ := remembers_last_store 6 ops
  have hlow : ram.read 1 = ⟨2, 8, 9, 10⟩ := by decide +kernel
  have hhigh : ram.read 6 = ⟨5, 12, 13, 0⟩ := by decide +kernel
  exact ⟨⟨hlow, (hread 1 1 (by decide) 8).mp (by rw [hlow]; rfl)⟩,
    ⟨hhigh, (hread 6 3 (by decide) 0).mp (by rw [hhigh]; rfl)⟩, (hload 7 [12, 13, 14, 15]).1,
    hwrite 5 (by decide) _, hbeyond (.write 9 ⟨1, 1, 1, 1⟩) (by decide)⟩

end Ledboard.Ram
