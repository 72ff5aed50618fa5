/-
# Listings

A listing takes a byte string apart into the instructions that it spells, from its first byte
on, each with its address.  The last instruction may reach past the end of the string, where
the missing bytes count as zero.
-/
import Ledboard.Instruction

namespace Ledboard.Instruction

/-- The instructions that a byte string spells from address `start` on. -/
def listingFrom (start : Nat) : List UInt8 → List (Nat × Instruction)
  | [] => []
  | b :: bs =>
    let i := decode (b :: bs)
    (start, i) :: listingFrom (start + i.width) ((b :: bs).drop i.width)
termination_by bytes => bytes.length
decreasing_by
  have := width_pos (decode (b :: bs))
  simp only [List.length_drop, List.length_cons]
  omega

/-- The instructions that a byte string spells, with their addresses. -/
def listing (bytes : List UInt8) : List (Nat × Instruction) := listingFrom 0 bytes

/-- The bytes of a sequence of instructions. -/
def encodeAll (instructions : List Instruction) : List UInt8 := instructions.flatMap encode

@[simp] theorem listing_nil : listing [] = [] := by
  simp [listing, listingFrom]

end Ledboard.Instruction
