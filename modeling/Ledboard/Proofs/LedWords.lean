/-
# The words of the LEDs

The address map says where the word of a LED lies, and the display window says which LED an offset
belongs to.  Both go by the same words: outside of RAM, which is asked first, the addresses that
reach a LED are the four of its word, and no other address reaches it (`writes_reach_leds`).  This
holds for every map: windows may overlap, start at any address, and be clipped at the top of the
address space.

* **Addresses** (`AddressMap.ledWord_iff`).  The word of LED `i` lies `i + 1` words behind the start
  of the window, as far as there are addresses.
* **Display** (`Display.write_eq`).  A word that is written to the window gives one LED a colour and
  flushes the frame, or does nothing.
* **Bus** (`Bus.Wired`).  A bus that is wired by a map stays so under reads and writes, and a write
  changes the display behind it at most (`Bus.wired_write`).
* **Machine** (`Machine.Wired`).  A new machine is wired by its map, and stays so however long it
  runs (`Machine.wired_after`).
-/
import Ledboard.Proofs.Traffic

namespace Ledboard

/-! ## 1. Addresses -/

theorem Binding.holds_eq_true_iff {b : Binding} {address : UInt32} :
    b.holds address = true ↔ b.first ≤ address ∧ address ≤ b.last := by
  rw [holds, Bool.and_eq_true, decide_eq_true_eq, decide_eq_true_eq]

namespace AddressMap

variable {map : AddressMap} {led : Nat} {address a : UInt32}

/-- Whether an address lies in the RAM window. -/
def InRam (map : AddressMap) (address : UInt32) : Prop :=
  map.ramRange.1 ≤ address ∧ address ≤ map.ramRange.2

instance (map : AddressMap) (address : UInt32) : Decidable (map.InRam address) :=
  inferInstanceAs (Decidable (_ ∧ _))

/-- Whether an address is one of the four of a LED's word. -/
def LedWord (map : AddressMap) (led : Nat) (address : UInt32) : Prop :=
  ∃ a, map.ledAddress? led = some a ∧ a.toNat ≤ address.toNat ∧ address.toNat ≤ a.toNat + 3

/-- A LED has an address exactly if its word starts within the address space. -/
theorem ledAddress?_eq_some_iff :
    map.ledAddress? led = some a ↔ a.toNat = map.videoBase.toNat + 4 * (led + 1) := by
  rw [ledAddress?, Option.bind_eq_bind, Option.bind_eq_some_iff]
  simp only [address?_eq_some_iff, addAddress?_eq_some_iff, Word.size]
  constructor
  · rintro ⟨offset, hoffset, hsum⟩
    omega
  · intro hplace
    have ha := a.toNat_lt
    have hoffset : (UInt32.ofNat ((led + 1) * 4)).toNat = (led + 1) * 4 :=
      UInt32.toNat_ofNat_of_lt' (by simp only [UInt32.size]; omega)
    exact ⟨_, hoffset, by omega⟩

/-- **The words of the LEDs lie one behind another**, from the second word of the window on. -/
theorem ledWord_iff : map.LedWord led address ↔
    map.videoBase.toNat + 4 * (led + 1) ≤ address.toNat ∧
      address.toNat < map.videoBase.toNat + 4 * (led + 2) := by
  constructor
  · rintro ⟨a, ha, hlow, hhigh⟩
    rw [ledAddress?_eq_some_iff] at ha
    omega
  · rintro ⟨hlow, hhigh⟩
    have htop := address.toNat_lt
    have hword : (UInt32.ofNat (map.videoBase.toNat + 4 * (led + 1))).toNat =
        map.videoBase.toNat + 4 * (led + 1) :=
      UInt32.toNat_ofNat_of_lt' (by simp only [UInt32.size]; omega)
    exact ⟨_, ledAddress?_eq_some_iff.mpr hword, by omega, by omega⟩

/-- An address belongs to one LED at most. -/
theorem ledWord_unique {other : Nat} (h : map.LedWord led address)
    (hother : map.LedWord other address) : led = other := by
  rw [ledWord_iff] at h hother
  omega

/-- The first address of a LED's word. -/
theorem ledWord_of_ledAddress? (h : map.ledAddress? led = some a) : map.LedWord led a :=
  ⟨a, h, Nat.le_refl _, Nat.le_add_right _ _⟩

/-- Where the display window ends, if it fits the address space. -/
theorem toNat_videoEnd {last : UInt32} (h : map.videoEnd? = some last) :
    last.toNat + 1 = map.videoBase.toNat + 4 * (map.ledCount + 1) := by
  obtain ⟨span, hspan, hlast⟩ := Option.bind_eq_some_iff.mp h
  rw [span?, address?_eq_some_iff, Word.size] at hspan
  have hone : (1 : UInt32) ≤ span := by
    rw [UInt32.le_iff_toNat_le, UInt32.toNat_one]
    omega
  rw [addAddress?_eq_some_iff, UInt32.toNat_sub_of_le _ _ hone, UInt32.toNat_one] at hlast
  omega

/-- The clipped display window holds every address of a LED. -/
theorem le_videoRange (h : address.toNat < map.videoBase.toNat + 4 * (map.ledCount + 1)) :
    address ≤ map.videoRange.2 := by
  have hrange : map.videoRange.2 = map.videoEnd?.getD topAddress := rfl
  rw [hrange, UInt32.le_iff_toNat_le]
  cases hlast : map.videoEnd? with
  | none =>
    rw [Option.getD_none]
    exact Nat.le_of_lt_succ address.toNat_lt
  | some last =>
    have hend := toNat_videoEnd hlast
    rw [Option.getD_some]
    omega

/-- The RAM window, as a binding has it. -/
theorem holds_ram_iff {device : Device} :
    Binding.holds ⟨map.ramRange.1, map.ramRange.2, device⟩ address = true ↔ map.InRam address :=
  Binding.holds_eq_true_iff

/-- The display window, as a binding has it. -/
theorem holds_video_iff {window : Device} :
    Binding.holds ⟨map.videoRange.1, map.videoRange.2, window⟩ address = true ↔
      map.videoBase ≤ address ∧ address ≤ map.videoRange.2 := Binding.holds_eq_true_iff

end AddressMap

/-! ## 2. The display -/

namespace Display

variable {d : Display} {offset led : Nat} {word : Word} {color : Rgb}

theorem ledAt?_eq_some_iff :
    ledAt? offset = some led ↔ 4 * (led + 1) ≤ offset ∧ offset < 4 * (led + 2) := by
  unfold ledAt?
  simp only [Word.size]
  split
  · simp only [reduceCtorEq, false_iff]
    omega
  · rw [Option.some.injEq]
    omega

/-- The display window and the address map agree about the words of the LEDs. -/
theorem ledAt?_offset_iff {map : AddressMap} {address : UInt32} (window : Device) (led : Nat)
    (hbase : map.videoBase ≤ address) :
    ledAt? (Binding.offset ⟨map.videoRange.1, map.videoRange.2, window⟩ address) = some led ↔
      map.LedWord led address := by
  have hoffset : Binding.offset ⟨map.videoRange.1, map.videoRange.2, window⟩ address =
      address.toNat - map.videoBase.toNat := UInt32.toNat_sub_of_le _ _ hbase
  rw [UInt32.le_iff_toNat_le] at hbase
  rw [ledAt?_eq_some_iff, AddressMap.ledWord_iff, hoffset]
  omega

/-- A display after a LED was given a colour and the frame was flushed. -/
def lit (d : Display) (led : Nat) (color : Rgb) : Display :=
  { d with frame := d.frame.setIfInBounds led color }.flush

/-- A word that is written to the window is for one LED, if there is such a LED, or for none. -/
theorem write_eq (d : Display) (offset : Nat) (word : Word) :
    d.write offset word =
      match ledAt? offset with
      | none => d
      | some led => if led < d.ledCount then d.lit led (Rgb.ofWord word) else d := by
  unfold write
  cases ledAt? offset with
  | none => rfl
  | some led =>
    by_cases hled : led < d.ledCount
    · simp only [set, hled, if_true]
      rfl
    · simp only [set, hled, if_false]

@[simp] theorem ledCount_lit (d : Display) (led : Nat) (color : Rgb) :
    (d.lit led color).ledCount = d.ledCount := Array.size_setIfInBounds

/-- One LED has the colour, and all others have theirs. -/
theorem get?_lit (hled : led < d.ledCount) (color : Rgb) (other : Nat) :
    (d.lit led color).get? other = if other = led then some color else d.get? other := by
  have hget : (d.lit led color).get? other = (d.frame.setIfInBounds led color)[other]? := rfl
  rw [hget, Array.getElem?_setIfInBounds]
  split
  · rename_i h
    subst h
    rw [if_pos rfl, if_pos (show led < d.frame.size from hled)]
  · rename_i h
    rw [if_neg (Ne.symm h)]
    rfl

/-- What it means for a display that one LED, and no other, gets a colour and is flushed. -/
structure Lights (led : Nat) (color : Rgb) (before after : Display) : Prop where
  color : after.get? led = some color
  others : ∀ other, other ≠ led → after.get? other = before.get? other
  flushes : after.flushes = before.flushes + 1
  shown : after.shown = some after.frame

theorem lights_lit (hled : led < d.ledCount) (color : Rgb) :
    Lights led color d (d.lit led color) where
  color := by rw [get?_lit hled, if_pos rfl]
  others := by
    intro other hother
    rw [get?_lit hled, if_neg hother]
  flushes := rfl
  shown := rfl

end Display

/-! ## 3. The bus -/

/-- Whether a write to an address reaches a LED: the address is one of the four of its word, and
RAM, which is asked first, does not answer. -/
structure AddressMap.Reaches (map : AddressMap) (led : Nat) (address : UInt32) : Prop where
  exists_led : led < map.ledCount
  behind_ram : ¬ map.InRam address
  word : map.LedWord led address

/-- The bindings of a map, in the order in which they are asked. -/
def AddressMap.windows (map : AddressMap) (ram : Ram) (source : Noise) : List Binding :=
  [⟨map.ramRange.1, map.ramRange.2, .ram ram⟩, ⟨map.videoRange.1, map.videoRange.2, .display 0⟩,
    ⟨map.noiseRange.1, map.noiseRange.2, .noise source⟩]

/-- A bus that is wired by a map, with some contents of RAM and some noise, to a display with as
many LEDs as the map says. -/
structure Bus.Wired (map : AddressMap) (d : Display) (bus : Bus) : Prop where
  windows : ∃ ram source, bus.bindings = map.windows ram source
  displays : bus.displays = #[d]
  leds : d.ledCount = map.ledCount

namespace AddressMap

variable {map : AddressMap} {led : Nat} {address : UInt32}

/-- The display window, clipped or not, holds every address that reaches a LED. -/
theorem Reaches.holds_video (h : map.Reaches led address) :
    map.videoBase ≤ address ∧ address ≤ map.videoRange.2 := by
  have hled := h.exists_led
  have hword := ledWord_iff.mp h.word
  refine ⟨?_, le_videoRange (by omega)⟩
  rw [UInt32.le_iff_toNat_le]
  omega

/-- An address reaches one LED at most. -/
theorem Reaches.unique {other : Nat} (h : map.Reaches led address)
    (hother : map.Reaches other address) : led = other :=
  ledWord_unique h.word hother.word

end AddressMap

namespace Bus

variable {map : AddressMap} {d : Display} {bus : Bus} {led : Nat} {address : UInt32}

theorem wired_wire {d : Display} (hleds : d.ledCount = map.ledCount) (noise : Noise) :
    (Machine.wire map d noise).Wired map d :=
  ⟨⟨_, _, rfl⟩, rfl, hleds⟩

/-- Reading keeps the wiring and the display. -/
theorem wired_read (h : bus.Wired map d) (address : UInt32) : (bus.read address).2.Wired map d := by
  obtain ⟨⟨ram, source, hbindings⟩, hdisplays, hleds⟩ := h
  rcases bus with ⟨bindings, displays⟩
  subst hbindings hdisplays
  simp only [AddressMap.windows, read, Binding.readFirst, Device.read]
  repeat' split
  all_goals exact ⟨⟨_, _, rfl⟩, rfl, hleds⟩

/-- **A write reaches one LED, or no LED.**  It keeps the wiring, and changes the display only in
the first case. -/
theorem wired_write (h : bus.Wired map d) (address : UInt32) (word : Word) :
    (∃ led, map.Reaches led address ∧
        (bus.write address word).Wired map (d.lit led (Rgb.ofWord word))) ∨
      (∀ led, ¬ map.Reaches led address) ∧ (bus.write address word).Wired map d := by
  obtain ⟨⟨ram, source, hbindings⟩, hdisplays, hleds⟩ := h
  rcases bus with ⟨bindings, displays⟩
  subst hbindings hdisplays
  simp only [AddressMap.windows, write, Binding.writeFirst, Device.write, AddressMap.holds_ram_iff,
    AddressMap.holds_video_iff]
  by_cases hram : map.InRam address
  · rw [if_pos hram]
    exact Or.inr ⟨fun led hreaches => hreaches.behind_ram hram, ⟨_, _, rfl⟩, rfl, hleds⟩
  · by_cases hvideo : map.videoBase ≤ address ∧ address ≤ map.videoRange.2
    · rw [if_neg hram, if_pos hvideo]
      have hword := fun led => Display.ledAt?_offset_iff (.display 0) led hvideo.1
      generalize Binding.offset _ address = offset at hword ⊢
      have hwired : ∀ after, d.write offset word = after → after.ledCount = map.ledCount →
          Wired map after ⟨map.windows ram source, #[d].modify 0 (·.write offset word)⟩ := by
        rintro _ rfl hafter
        exact ⟨⟨ram, source, rfl⟩, rfl, hafter⟩
      cases hled : Display.ledAt? offset with
      | none =>
        refine Or.inr ⟨?_, hwired d (by rw [Display.write_eq, hled]) hleds⟩
        intro led hreaches
        exact absurd (hled.symm.trans ((hword led).mpr hreaches.word)) (by simp)
      | some led =>
        by_cases hexists : led < d.ledCount
        · refine Or.inl ⟨led, ⟨hleds ▸ hexists, hram, (hword led).mp hled⟩, hwired _ ?_ ?_⟩
          · simp only [Display.write_eq, hled, hexists, if_true]
          · rw [Display.ledCount_lit, hleds]
        · refine Or.inr ⟨?_, hwired d ?_ hleds⟩
          · intro other hreaches
            obtain rfl := AddressMap.ledWord_unique hreaches.word ((hword led).mp hled)
            exact hexists (hleds ▸ hreaches.exists_led)
          · simp only [Display.write_eq, hled, hexists, if_false]
    · rw [if_neg hram, if_neg hvideo]
      refine Or.inr ⟨fun led hreaches => hvideo hreaches.holds_video, ?_⟩
      split <;> exact ⟨⟨_, _, rfl⟩, rfl, hleds⟩

/-- The first of the addresses of a LED reads as its colour, and so do the others. -/
theorem read_of_reaches (h : bus.Wired map d) (hreaches : map.Reaches led address) {color : Rgb}
    (hcolor : d.get? led = some color) : (bus.read address).1 = color.toWord := by
  have hvideo := hreaches.holds_video
  have hled := (Display.ledAt?_offset_iff (.display 0) led hvideo.1).mpr hreaches.word
  obtain ⟨⟨ram, source, hbindings⟩, hdisplays, hleds⟩ := h
  rcases bus with ⟨bindings, displays⟩
  subst hbindings hdisplays
  simp only [AddressMap.windows, read, Binding.readFirst, Device.read, AddressMap.holds_ram_iff,
    AddressMap.holds_video_iff, if_neg hreaches.behind_ram, if_pos hvideo]
  change d.read _ = _
  simp only [Display.read, hled, hcolor]

end Bus

/-! ## 4. The machine -/

namespace Machine

variable {m : Machine} {led : Nat} {address : UInt32}

/-- A machine whose bus is wired by its map, to a display with as many LEDs as the map says. -/
def Wired (m : Machine) : Prop := m.bus.Wired m.map m.display

/-- The machine after a word was written over its bus. -/
def write (m : Machine) (address : UInt32) (word : Word) : Machine :=
  { m with bus := m.bus.write address word }

theorem wired_of_bus {d : Display} (h : m.bus.Wired m.map d) : m.Wired ∧ m.display = d := by
  have hdisplay : m.display = d := by
    rw [display, h.displays]
    rfl
  exact ⟨by rw [Wired, hdisplay]; exact h, hdisplay⟩

theorem wired_create {map : AddressMap} {d : Display} (hleds : d.ledCount = map.ledCount)
    (noise : Noise) : (create map d noise).Wired :=
  (wired_of_bus (Bus.wired_wire hleds noise)).1

/-- **A step keeps the wiring.** -/
theorem wired_step (h : m.Wired) : m.step.2.Wired := by
  have hstep : ∃ d, m.step.2.bus.Wired m.map d := by
    refine Processor.cycle_preserves (P := fun bus : Bus => ∃ d, bus.Wired m.map d) ⟨_, h⟩ ?_ ?_
    · rintro bus address ⟨d, hd⟩
      exact ⟨d, Bus.wired_read hd address⟩
    · rintro bus address word - ⟨d, hd⟩
      rcases Bus.wired_write hd address word with ⟨led, -, hlit⟩ | ⟨-, hsame⟩
      · exact ⟨_, hlit⟩
      · exact ⟨_, hsame⟩
  obtain ⟨d, hd⟩ := hstep
  exact (wired_of_bus (m := m.step.2) hd).1

/-- **So does any number of steps.** -/
theorem wired_after (h : m.Wired) (n : Nat) : (m.after n).Wired := by
  induction n with
  | zero => exact h
  | succ n ih => exact wired_step ih

/-- **A write lights the LED that the address reaches**, or leaves the display as it is. -/
theorem display_write (h : m.Wired) (address : UInt32) (word : Word) :
    (m.write address word).Wired ∧
      ((∃ led, m.map.Reaches led address ∧
          (m.write address word).display = m.display.lit led (Rgb.ofWord word)) ∨
        (∀ led, ¬ m.map.Reaches led address) ∧ (m.write address word).display = m.display) := by
  rcases Bus.wired_write h address word with ⟨led, hreaches, hlit⟩ | ⟨hnone, hsame⟩
  · obtain ⟨hwired, hdisplay⟩ := wired_of_bus (m := m.write address word) hlit
    exact ⟨hwired, Or.inl ⟨led, hreaches, hdisplay⟩⟩
  · obtain ⟨hwired, hdisplay⟩ := wired_of_bus (m := m.write address word) hsame
    exact ⟨hwired, Or.inr ⟨hnone, hdisplay⟩⟩

/-- The same for an address that reaches a LED. -/
theorem display_write_of_reaches (h : m.Wired) (hreaches : m.map.Reaches led address)
    (word : Word) :
    (m.write address word).display = m.display.lit led (Rgb.ofWord word) := by
  rcases (display_write h address word).2 with ⟨other, hother, hlit⟩ | ⟨hnone, -⟩
  · rw [hreaches.unique hother, hlit]
  · exact absurd hreaches (hnone led)

/-- Where an address reaches no LED, a write leaves the display as it is. -/
theorem display_write_of_not_reaches (h : m.Wired) (hnone : ∀ led, ¬ m.map.Reaches led address)
    (word : Word) : (m.write address word).display = m.display := by
  rcases (display_write h address word).2 with ⟨led, hreaches, -⟩ | ⟨-, hsame⟩
  · exact absurd hreaches (hnone led)
  · exact hsame

theorem lights_of_reaches (h : m.Wired) (hreaches : m.map.Reaches led address) (word : Word) :
    Display.Lights led (Rgb.ofWord word) m.display (m.write address word).display := by
  rw [display_write_of_reaches h hreaches]
  exact Display.lights_lit (h.leds ▸ hreaches.exists_led) _

/-- What was written for a LED is read again, without its first byte. -/
theorem read_write_of_reaches (h : m.Wired) (hreaches : m.map.Reaches led address) (word : Word) :
    ((m.write address word).bus.read address).1 = ⟨0, word.b1, word.b2, word.b3⟩ :=
  Bus.read_of_reaches (display_write h address word).1 hreaches
    (lights_of_reaches h hreaches word).color

/-- A LED whose colour a write changes is one that the address reaches. -/
theorem reaches_of_get?_ne (h : m.Wired) {word : Word}
    (hchanged : (m.write address word).display.get? led ≠ m.display.get? led) :
    m.map.Reaches led address := by
  rcases (display_write h address word).2 with ⟨other, hother, hlit⟩ | ⟨-, hsame⟩
  · by_cases heq : led = other
    · exact heq ▸ hother
    · rw [hlit, Display.get?_lit (h.leds ▸ hother.exists_led), if_neg heq] at hchanged
      exact absurd rfl hchanged
  · rw [hsame] at hchanged
    exact absurd rfl hchanged

/-- So is a LED that gets the colour of every word.  Of two words with different colours one changes
the LED; a single word would not do, since the LED may have its colour already. -/
theorem reaches_of_forall_get? (h : m.Wired)
    (hall : ∀ word, (m.write address word).display.get? led = some (Rgb.ofWord word)) :
    m.map.Reaches led address := by
  refine Classical.byContradiction fun hnot => ?_
  have hkept : ∀ word, m.display.get? led = some (Rgb.ofWord word) := by
    intro word
    rw [← hall word]
    exact (Decidable.of_not_not (mt (reaches_of_get?_ne h) hnot)).symm
  have hequal := (hkept Word.zero).symm.trans (hkept ⟨0, 1, 0, 0⟩)
  exact absurd hequal (by decide)

/-- **The addresses and the LEDs correspond.**  On a machine that is wired by a map, whatever the
windows of the map are and whatever the machine has run:

* a write to RAM leaves the display as it is;
* outside of RAM the LED whose word holds the address, and no other, gets the colour of every word
  that is written, with one flush, and reads as that colour (one word alone would not tell it from
  another LED that has the colour already); where no LED's word holds the address, the display stays
  as it is;
* a write that changes the colour of a LED went to that LED's word, and not to RAM;
* a LED without an address keeps its colour, whatever is written where. -/
theorem writes_reach_leds (h : m.Wired) (address : UInt32) :
    (m.map.InRam address → ∀ word, (m.write address word).display = m.display) ∧
    (¬ m.map.InRam address →
      (∀ led,
        (∀ word,
          Display.Lights led (Rgb.ofWord word) m.display (m.write address word).display ∧
            ((m.write address word).bus.read address).1 = ⟨0, word.b1, word.b2, word.b3⟩) ↔
          led < m.map.ledCount ∧ m.map.LedWord led address) ∧
      ((∀ led < m.map.ledCount, ¬ m.map.LedWord led address) →
        ∀ word, (m.write address word).display = m.display)) ∧
    (∀ led word, (m.write address word).display.get? led ≠ m.display.get? led →
      led < m.map.ledCount ∧ m.map.LedWord led address ∧ ¬ m.map.InRam address) ∧
    ∀ led, m.map.ledAddress? led = none →
      ∀ word, (m.write address word).display.get? led = m.display.get? led := by
  refine ⟨?_, ?_, ?_, ?_⟩
  · intro hram
    refine display_write_of_not_reaches h ?_
    intro led hreaches
    exact hreaches.behind_ram hram
  · intro hram
    constructor
    · intro led
      constructor
      · intro hlights
        have hreaches := reaches_of_forall_get? h (fun word => (hlights word).1.color)
        exact ⟨hreaches.exists_led, hreaches.word⟩
      · rintro ⟨hled, hword⟩ word
        have hreaches : m.map.Reaches led address := ⟨hled, hram, hword⟩
        exact ⟨lights_of_reaches h hreaches word, read_write_of_reaches h hreaches word⟩
    · intro hnone
      refine display_write_of_not_reaches h ?_
      intro led hreaches
      exact hnone led hreaches.exists_led hreaches.word
  · intro led word hchanged
    have hreaches := reaches_of_get?_ne h hchanged
    exact ⟨hreaches.exists_led, hreaches.word, hreaches.behind_ram⟩
  · intro led haddress word
    have hnot : ¬ m.map.Reaches led address := by
      rintro ⟨-, -, a, ha, -⟩
      rw [haddress] at ha
      cases ha
    exact Decidable.of_not_not (mt (reaches_of_get?_ne h) hnot)

/-- A window that starts nine bytes below the top of the address space has room for the words of
two LEDs, of which the second has one address only.  The machine has run for two cycles. -/
theorem writes_reach_leds_of_clipped :
    let m := (create ⟨8, 0xfffffff7, 0x50000, 64⟩ (Display.dark 64) (Noise.counting 0 1)).after 2
    m.Wired ∧ ¬ m.map.InRam 0xffffffff ∧ m.map.LedWord 1 0xffffffff ∧
      m.map.ledAddress? 2 = none ∧
      (∀ word, Display.Lights 1 (Rgb.ofWord word) m.display (m.write 0xffffffff word).display) ∧
      ∀ word, (m.write 0xffffffff word).display.get? 2 = m.display.get? 2 := by
  intro m
  have hwired : m.Wired := wired_after (wired_create (by decide) _) 2
  have hmap : m.map = ⟨8, 0xfffffff7, 0x50000, 64⟩ := by decide +kernel
  have hram : ¬ m.map.InRam 0xffffffff := by
    rw [hmap]
    decide
  have hword : m.map.LedWord 1 0xffffffff := by
    rw [hmap]
    exact AddressMap.ledWord_iff.mpr (by decide)
  have hnone : m.map.ledAddress? 2 = none := by
    rw [hmap]
    decide
  have hreach := writes_reach_leds hwired 0xffffffff
  have hlights := ((hreach.2.1 hram).1 1).mpr ⟨by rw [hmap]; decide, hword⟩
  exact ⟨hwired, hram, hword, hnone, fun word => (hlights word).1, hreach.2.2.2 2 hnone⟩

end Machine

end Ledboard
