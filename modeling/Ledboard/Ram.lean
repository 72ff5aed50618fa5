/-
# RAM

A flat byte store behind the bus.  Its buffer is three bytes longer than its size, so that a
word at the last mapped offset still lies wholly inside.  Accesses need no alignment, and the
part of one that lies past the buffer is inert: it reads as zero and is not written.

The buffer is kept in pages, and only as far as something was stored: a page that is missing is
zero, and so is what lies behind the end of a page.  A RAM therefore takes room for what is stored
in it, however large it is.
-/
import Ledboard.Word

namespace Ledboard

/-- A RAM: how many bytes it maps, and the pages of its buffer. -/
structure Ram where
  size : Nat
  pages : Array (Array UInt8)
  deriving DecidableEq

namespace Ram

/-! ## 1. Pages -/

/-- How many bytes a page has. -/
def pageSize : Nat := 4096

/-- Fills an array up to a size. -/
def fillUp (xs : Array α) (size : Nat) (blank : α) : Array α :=
  if xs.size < size then xs ++ Array.replicate (size - xs.size) blank else xs

/-- Stores a byte in a page. -/
def setInPage (page : Array UInt8) (offset : Nat) (b : UInt8) : Array UInt8 :=
  (fillUp page (offset + 1) 0).setIfInBounds offset b

/-- Stores a byte in its page. -/
def setIn (pages : Array (Array UInt8)) (offset : Nat) (b : UInt8) : Array (Array UInt8) :=
  (fillUp pages (offset / pageSize + 1) #[]).modify (offset / pageSize)
    (fun page => setInPage page (offset % pageSize) b)

/-- The byte at an offset, in its page. -/
def byteIn (pages : Array (Array UInt8)) (offset : Nat) : UInt8 :=
  (pages.getD (offset / pageSize) #[]).getD (offset % pageSize) 0

/-- Stores bytes from an offset on. -/
def storeFrom : Array (Array UInt8) → Nat → List UInt8 → Array (Array UInt8)
  | pages, _, [] => pages
  | pages, offset, b :: bs => storeFrom (setIn pages offset b) (offset + 1) bs

theorem lt_size_fillUp (xs : Array α) (i : Nat) (blank : α) : i < (fillUp xs (i + 1) blank).size := by
  unfold fillUp
  split
  · simp only [Array.size_append, Array.size_replicate]
    omega
  · omega

theorem getD_fillUp (xs : Array α) (size i : Nat) (blank : α) :
    (fillUp xs size blank).getD i blank = xs.getD i blank := by
  unfold fillUp
  split
  · simp only [Array.getD_eq_getD_getElem?, Array.getElem?_append, Array.getElem?_replicate]
    split
    · rfl
    · rw [Array.getElem?_eq_none (by omega)]
      split <;> rfl
  · rfl

theorem getD_setInPage (page : Array UInt8) (offset i : Nat) (b : UInt8) :
    (setInPage page offset b).getD i 0 = if i = offset then b else page.getD i 0 := by
  unfold setInPage
  split
  · rename_i h
    rw [h, Array.getD_eq_getD_getElem?,
      Array.getElem?_setIfInBounds_self_of_lt (lt_size_fillUp page offset 0)]
    rfl
  · rename_i h
    rw [← getD_fillUp page (offset + 1) i 0, Array.getD_eq_getD_getElem?,
      Array.getElem?_setIfInBounds_ne (Ne.symm h), ← Array.getD_eq_getD_getElem?]

theorem getD_setIn (pages : Array (Array UInt8)) (offset i : Nat) (b : UInt8) :
    (setIn pages offset b).getD i #[] =
      if i = offset / pageSize then setInPage (pages.getD i #[]) (offset % pageSize) b
      else pages.getD i #[] := by
  rw [← getD_fillUp pages (offset / pageSize + 1) i #[]]
  simp only [setIn, Array.getD_eq_getD_getElem?, Array.getElem?_modify]
  split
  · rename_i h
    subst h
    rw [if_pos rfl, Array.getElem?_eq_getElem (lt_size_fillUp pages _ #[])]
    rfl
  · rename_i h
    rw [if_neg (Ne.symm h)]

/-- What is stored at an offset is found there, and nothing else changes. -/
theorem byteIn_setIn (pages : Array (Array UInt8)) (offset i : Nat) (b : UInt8) :
    byteIn (setIn pages offset b) i = if i = offset then b else byteIn pages i := by
  unfold byteIn
  rw [getD_setIn]
  by_cases hpage : i / pageSize = offset / pageSize
  · have hsame : i % pageSize = offset % pageSize ↔ i = offset := by
      constructor
      · intro h
        rw [← Nat.div_add_mod i pageSize, hpage, h, Nat.div_add_mod]
      · intro h
        rw [h]
    rw [if_pos hpage, getD_setInPage]
    simp only [hsame]
  · rw [if_neg hpage, if_neg (fun h => hpage (congrArg (· / pageSize) h))]

/-! ## 2. Access -/

/-- How many bytes the buffer has beyond the size of the RAM. -/
def padding : Nat := Word.size - 1

/-- How many bytes the buffer has. -/
def capacity (ram : Ram) : Nat := ram.size + padding

/-- A zeroed RAM. -/
def ofSize (size : Nat) : Ram := ⟨size, #[]⟩

/-- How many of `count` bytes fit when they are stored from `offset` on. -/
def room (ram : Ram) (offset count : Nat) : Nat := min count (ram.capacity - offset)

/-- Copies bytes in from an offset on; those that fall past the end are dropped. -/
def load (ram : Ram) (offset : Nat) (bytes : List UInt8) : Ram :=
  ⟨ram.size, storeFrom ram.pages offset (bytes.take (ram.room offset bytes.length))⟩

/-- The byte at an offset, or zero past the end. -/
def byteAt (ram : Ram) (offset : Nat) : UInt8 :=
  if offset < ram.capacity then byteIn ram.pages offset else 0

/-- The word at an offset. -/
def read (ram : Ram) (offset : Nat) : Word :=
  ⟨ram.byteAt offset, ram.byteAt (offset + 1), ram.byteAt (offset + 2), ram.byteAt (offset + 3)⟩

/-- Stores a word at an offset. -/
def write (ram : Ram) (offset : Nat) (word : Word) : Ram := ram.load offset word.toList

/-- At most `count` bytes of the buffer, from an offset on. -/
def slice (ram : Ram) (offset count : Nat) : List UInt8 :=
  (List.range (min count (ram.capacity - offset))).map (fun i => ram.byteAt (offset + i))

/-- The buffer as a whole. -/
def bytes (ram : Ram) : List UInt8 := ram.slice 0 ram.capacity

@[simp] theorem size_load (ram : Ram) (offset : Nat) (bytes : List UInt8) :
    (ram.load offset bytes).size = ram.size := rfl

@[simp] theorem size_write (ram : Ram) (offset : Nat) (word : Word) :
    (ram.write offset word).size = ram.size := rfl

/-- A new RAM is zero everywhere. -/
@[simp] theorem byteAt_ofSize (size offset : Nat) : (ofSize size).byteAt offset = 0 := by
  simp [byteAt, byteIn, ofSize]

end Ram

end Ledboard
