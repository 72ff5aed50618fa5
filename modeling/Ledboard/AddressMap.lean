/-
# The address map

The board has three windows on its 32-bit bus: RAM from address 0, the display, and one word of
noise.  All ranges include both ends.  Arithmetic on addresses never wraps: what would leave the
address space is clipped to its end, or is no address at all.
-/
import Ledboard.Word
import Ledboard.Text.Numeral

namespace Ledboard

/-- The greatest address. -/
def topAddress : UInt32 := 0xffffffff

/-- The sum of two addresses, unless it leaves the address space. -/
def addAddress? (a b : UInt32) : Option UInt32 :=
  if a.toNat + b.toNat < UInt32.size then some (a + b) else none

/-- The number as an address, if there is such an address. -/
def address? (n : Nat) : Option UInt32 :=
  if n < UInt32.size then some (UInt32.ofNat n) else none

theorem address?_eq_some_iff {n : Nat} {a : UInt32} : address? n = some a ↔ a.toNat = n := by
  rw [address?, Option.ite_none_right_eq_some, Option.some.injEq, ← UInt32.toNat_inj,
    UInt32.toNat_ofNat']
  have ha := a.toNat_lt
  simp only [UInt32.size]
  omega

theorem addAddress?_eq_some_iff {a b c : UInt32} :
    addAddress? a b = some c ↔ c.toNat = a.toNat + b.toNat := by
  rw [addAddress?, Option.ite_none_right_eq_some, Option.some.injEq, ← UInt32.toNat_inj,
    UInt32.toNat_add]
  have hc := c.toNat_lt
  simp only [UInt32.size]
  omega

/-- Where the windows lie. -/
structure AddressMap where
  ramSize : Nat
  videoBase : UInt32
  noiseBase : UInt32
  ledCount : Nat
  deriving DecidableEq, Repr

namespace AddressMap

/-- The map of the board as it is built. -/
def standard : AddressMap := ⟨32000, 0x10000, 0x50000, 64⟩

/-- The RAM window.  A RAM of no size still takes address 0, and of a size only the low 32 bits
count. -/
def ramRange (m : AddressMap) : UInt32 × UInt32 :=
  (0, UInt32.ofNat (m.ramSize % UInt32.size - 1))

/-- Where the RAM window ends, if the size of RAM is a number of 32 bits. -/
theorem toNat_ramRange {m : AddressMap} (h : m.ramSize < UInt32.size) :
    m.ramRange.2.toNat = m.ramSize - 1 := by
  have hlast : m.ramSize - 1 < UInt32.size := Nat.lt_of_le_of_lt (Nat.sub_le _ _) h
  rw [ramRange, Nat.mod_eq_of_lt h, UInt32.toNat_ofNat_of_lt' hlast]

/-- How many bytes a display window has: one word for each LED and the reserved one. -/
def span? (leds : Nat) : Option UInt32 := address? ((leds + 1) * Word.size)

/-- The last address of the display window, if the window fits the address space. -/
def videoEnd? (m : AddressMap) : Option UInt32 := do
  let span ← span? m.ledCount
  addAddress? m.videoBase (span - 1)

/-- The display window, clipped to the address space. -/
def videoRange (m : AddressMap) : UInt32 × UInt32 :=
  (m.videoBase, m.videoEnd?.getD topAddress)

/-- The noise window, clipped to the address space. -/
def noiseRange (m : AddressMap) : UInt32 × UInt32 :=
  (m.noiseBase, (addAddress? m.noiseBase 3).getD topAddress)

/-- The address of a LED's word, if it has one. -/
def ledAddress? (m : AddressMap) (led : Nat) : Option UInt32 := do
  let offset ← address? ((led + 1) * Word.size)
  addAddress? m.videoBase offset

/-- The short form of an address map. -/
def describe (m : AddressMap) : String :=
  "Layout \x7b ram_size: " ++ Text.decimal m.ramSize
    ++ ", video_base: " ++ Text.decimal m.videoBase.toNat
    ++ ", noise_base: " ++ Text.decimal m.noiseBase.toNat
    ++ ", led_count: " ++ Text.decimal m.ledCount ++ " \x7d"

end AddressMap

end Ledboard
