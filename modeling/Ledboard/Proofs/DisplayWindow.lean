/-
# A display window fits or is refused

The display window is one word longer than the chain of LEDs.  Its end is found in three steps: the
number of its bytes, which has to be a number of 32 bits, one less than that, and the base on top
of it, which has to be an address.  With one exception this comes to a single comparison: there is
an end exactly if the last byte, counted with numbers of any size, is at an address
(`display_window_fits_or_is_refused`).

The exception is the window that is the whole address space (`AddressMap.IsWhole`).  Its last byte
is at the greatest address, but the number of its bytes is one more than 32 bits hold, and so it
counts as too large (`whole_window_is_refused`), although all of its LEDs have addresses.

* **The end** (`AddressMap.videoEnd?_eq_some_iff`, `AddressMap.videoEnd?_eq_none_iff`).  There is
  one for the windows that fit, apart from the exception.
* **Its steps** (`AddressMap.span?_eq_spanIn64Bits?`).  A number of LEDs has 64 bits.  Wherever
  these do not suffice, 32 bits would not have sufficed for the number of bytes either.
* **Settings** (`Settings.ofArguments_eq`).  Where nothing else is wrong with the arguments, the
  end decides what becomes of them.
-/
import Ledboard.Proofs.LedWords
import Ledboard.Settings

namespace Ledboard

/-! ## 1. The end of a window -/

namespace AddressMap

variable {map : AddressMap} {leds : Nat}

/-- The place of the last byte of the display window, which need not be an address. -/
def lastByte (map : AddressMap) : Nat := map.videoBase.toNat + 4 * (map.ledCount + 1) - 1

/-- The display window is the whole address space. -/
def IsWhole (map : AddressMap) : Prop :=
  map.videoBase = 0 ∧ 4 * (map.ledCount + 1) = UInt32.size

instance (map : AddressMap) : Decidable map.IsWhole := inferInstanceAs (Decidable (_ ∧ _))

theorem span?_eq_some_iff {span : UInt32} :
    span? leds = some span ↔ span.toNat = 4 * (leds + 1) := by
  rw [span?, address?_eq_some_iff, Word.size, Nat.mul_comm]

/-- **There is an end of the window**, its last byte, if that is at an address and the window is
not the whole address space. -/
theorem videoEnd?_eq_some_iff {last : UInt32} :
    map.videoEnd? = some last ↔ last.toNat = map.lastByte ∧ ¬ map.IsWhole := by
  have hbound := last.toNat_lt
  constructor
  · intro h
    obtain ⟨span, hspan, -⟩ := Option.bind_eq_some_iff.mp h
    have hsize := span?_eq_some_iff.mp hspan
    have hend := toNat_videoEnd h
    refine ⟨?_, fun hwhole => ?_⟩
    · rw [lastByte]
      omega
    · have htoo : span.toNat = UInt32.size := hsize.trans hwhole.2
      exact absurd span.toNat_lt (by rw [htoo]; decide)
  · rintro ⟨hlast, hwhole⟩
    rw [lastByte] at hlast
    -- A window as long as the address space that does not leave it starts where it does.
    have hsize : 4 * (map.ledCount + 1) < UInt32.size := by
      refine Nat.lt_of_not_le fun hlarge => ?_
      simp only [UInt32.size] at hlarge
      have hbase : map.videoBase.toNat = 0 := by omega
      refine hwhole ⟨UInt32.toNat_inj.mp hbase, ?_⟩
      simp only [UInt32.size]
      omega
    have hspan := UInt32.toNat_ofNat_of_lt' hsize
    have hone : (1 : UInt32) ≤ UInt32.ofNat (4 * (map.ledCount + 1)) := by
      rw [UInt32.le_iff_toNat_le, hspan, UInt32.toNat_one]
      omega
    refine Option.bind_eq_some_iff.mpr ⟨_, span?_eq_some_iff.mpr hspan, ?_⟩
    rw [addAddress?_eq_some_iff, UInt32.toNat_sub_of_le _ _ hone, hspan, UInt32.toNat_one]
    omega

/-- **There is none** if the window leaves the address space, or is all of it. -/
theorem videoEnd?_eq_none_iff :
    map.videoEnd? = none ↔ topAddress.toNat < map.lastByte ∨ map.IsWhole := by
  have htop : topAddress.toNat = 4294967295 := rfl
  constructor
  · intro hnone
    refine Decidable.byContradiction fun hfits => ?_
    obtain ⟨hlast, hwhole⟩ := not_or.mp hfits
    rw [htop, Nat.not_lt] at hlast
    have hplace : (UInt32.ofNat map.lastByte).toNat = map.lastByte :=
      UInt32.toNat_ofNat_of_lt' (Nat.lt_succ_of_le hlast)
    cases hnone.symm.trans (videoEnd?_eq_some_iff.mpr ⟨hplace, hwhole⟩)
  · intro hout
    rw [Option.eq_none_iff_forall_ne_some]
    intro last hlast
    obtain ⟨hplace, hwhole⟩ := videoEnd?_eq_some_iff.mp hlast
    have hbound := last.toNat_lt
    rcases hout with hout | hout
    · omega
    · exact hwhole hout

theorem lastByte_of_isWhole (h : map.IsWhole) : map.lastByte = topAddress.toNat := by
  rw [lastByte, h.1, h.2]
  rfl

/-- The window ends at its end, if it has one. -/
theorem toNat_videoRange {last : UInt32} (h : map.videoEnd? = some last) :
    map.videoRange.2.toNat = last.toNat := by
  rw [videoRange, h, Option.getD_some]

/-! ## 2. The size of a window in 64 bits -/

/-- The sum of two 64-bit numbers, if 64 bits hold it. -/
def addCount? (a b : UInt64) : Option UInt64 :=
  if a.toNat + b.toNat < UInt64.size then some (a + b) else none

/-- The product of two 64-bit numbers, if 64 bits hold it. -/
def mulCount? (a b : UInt64) : Option UInt64 :=
  if a.toNat * b.toNat < UInt64.size then some (a * b) else none

/-- How many bytes a display window has, from a number of LEDs of 64 bits.  No step gives more than
its bits hold. -/
def spanIn64Bits? (leds : UInt64) : Option UInt32 := do
  let words ← addCount? leds 1
  let bytes ← mulCount? words 4
  address? bytes.toNat

theorem addCount?_eq_some_iff {a b c : UInt64} :
    addCount? a b = some c ↔ c.toNat = a.toNat + b.toNat := by
  rw [addCount?, Option.ite_none_right_eq_some, Option.some.injEq, ← UInt64.toNat_inj,
    UInt64.toNat_add]
  have hc := c.toNat_lt
  simp only [UInt64.size]
  omega

theorem mulCount?_eq_some_iff {a b c : UInt64} :
    mulCount? a b = some c ↔ c.toNat = a.toNat * b.toNat := by
  rw [mulCount?, Option.ite_none_right_eq_some, Option.some.injEq, ← UInt64.toNat_inj,
    UInt64.toNat_mul]
  have hc := c.toNat_lt
  generalize a.toNat * b.toNat = product
  simp only [UInt64.size]
  omega

/-- **64 bits suffice**: they give the size of every window whose size is a number of 32 bits, and
none of another. -/
theorem span?_eq_spanIn64Bits? (leds : UInt64) : span? leds.toNat = spanIn64Bits? leds := by
  refine Option.ext fun span => ?_
  have hone : (1 : UInt64).toNat = 1 := rfl
  have hfour : (4 : UInt64).toNat = 4 := rfl
  simp only [spanIn64Bits?, Option.bind_eq_bind, Option.bind_eq_some_iff, addCount?_eq_some_iff,
    mulCount?_eq_some_iff, address?_eq_some_iff, span?_eq_some_iff, hone, hfour]
  have hspan := span.toNat_lt
  constructor
  · intro hsize
    have hwords : (UInt64.ofNat (leds.toNat + 1)).toNat = leds.toNat + 1 :=
      UInt64.toNat_ofNat_of_lt' (by simp only [UInt64.size]; omega)
    have hbytes : (UInt64.ofNat (4 * (leds.toNat + 1))).toNat = 4 * (leds.toNat + 1) :=
      UInt64.toNat_ofNat_of_lt' (by simp only [UInt64.size]; omega)
    exact ⟨_, hwords, _, by rw [hbytes, hwords, Nat.mul_comm], by rw [hbytes, hsize]⟩
  · rintro ⟨words, hwords, bytes, hbytes, hsize⟩
    omega

end AddressMap

/-! ## 3. Settings -/

/-- Apart from the display, all arguments are in order. -/
structure Arguments.SoundElsewhere (a : Arguments) : Prop where
  stepsPerYield : a.stepsPerYield ≠ 0
  pingInterval : a.pingInterval ≠ 0
  buttonPoll : a.buttonPoll ≠ 0
  debugEvery : a.debugEvery ≠ some 0
  ramSize : a.ramSize ≠ topAddress.toNat

/-- The settings that say what the arguments say. -/
def Settings.asGiven (a : Arguments) : Settings where
  listenAddress := a.listenAddress
  map := a.map
  programStore := a.programStore
  defaultProgram := a.defaultProgram
  indexPage := a.indexPage
  pingInterval := a.pingInterval
  buttonPoll := a.buttonPoll
  stepsPerYield := a.stepsPerYield
  debugEvery := a.debugEvery
  logLevel := a.logLevel

/-- **The display decides**, where all else is in order. -/
theorem Settings.ofArguments_eq {a : Arguments} (h : a.SoundElsewhere) :
    ofArguments a =
      if a.ledCount = 0 then .error .noLeds
      else if a.map.videoEnd? = none then .error (.displayTooLarge a.ledCount a.videoBase)
      else .ok (asGiven a) := by
  rw [ofArguments, if_neg h.stepsPerYield, if_neg h.pingInterval, if_neg h.buttonPoll,
    if_neg h.debugEvery, if_neg h.ramSize]
  simp only [Option.isNone_iff_eq_none]
  rfl

/-! ## 4. The whole -/

/-- What there is to know of the end of a display window. -/
structure AddressMap.EndFound (map : AddressMap) : Prop where
  /-- the last byte is the end, if it is at an address -/
  fits : ¬ map.IsWhole → map.lastByte ≤ topAddress.toNat →
    ∃ last, map.videoEnd? = some last ∧ last.toNat = map.lastByte
  /-- there is no end only if it is not -/
  leaves : ¬ map.IsWhole → (map.videoEnd? = none ↔ topAddress.toNat < map.lastByte)
  /-- the one window for which this is not so -/
  whole : map.IsWhole → map.lastByte = topAddress.toNat ∧ map.videoEnd? = none
  /-- it makes no difference that the steps are taken in 64 and in 32 bits -/
  steps : ∀ leds : UInt64, map.ledCount = leds.toNat → map.videoEnd? =
    (spanIn64Bits? leds).bind (fun span => addAddress? map.videoBase (span - 1))

theorem AddressMap.endFound (map : AddressMap) : map.EndFound := by
  have hleaves : ¬ map.IsWhole → (map.videoEnd? = none ↔ topAddress.toNat < map.lastByte) := by
    intro hwhole
    rw [videoEnd?_eq_none_iff, or_iff_left hwhole]
  constructor
  case fits =>
    intro hwhole hfits
    obtain ⟨last, hlast⟩ : ∃ last, map.videoEnd? = some last := by
      rw [← Option.ne_none_iff_exists', ne_eq, hleaves hwhole]
      exact Nat.not_lt.mpr hfits
    exact ⟨last, hlast, (videoEnd?_eq_some_iff.mp hlast).1⟩
  case leaves => exact hleaves
  case whole =>
    intro hwhole
    exact ⟨lastByte_of_isWhole hwhole, videoEnd?_eq_none_iff.mpr (.inr hwhole)⟩
  case steps =>
    intro leds hleds
    rw [videoEnd?, hleds, span?_eq_spanIn64Bits?]
    rfl

/-- What becomes of arguments because of their display. -/
structure Arguments.Judged (a : Arguments) : Prop where
  /-- there has to be a LED, wherever its window would be -/
  empty : a.ledCount = 0 → Settings.ofArguments a = .error .noLeds
  /-- a window that fits is taken -/
  fits : a.ledCount ≠ 0 → ¬ a.map.IsWhole → a.map.lastByte ≤ topAddress.toNat →
    ∃ s, Settings.ofArguments a = .ok s ∧ s.map = a.map ∧ s.map.videoRange.1 = a.videoBase ∧
      s.map.videoRange.2.toNat = a.map.lastByte
  /-- it is refused only if it does not fit -/
  leaves : a.ledCount ≠ 0 → ¬ a.map.IsWhole →
    (Settings.ofArguments a = .error (.displayTooLarge a.ledCount a.videoBase) ↔
      topAddress.toNat < a.map.lastByte)
  /-- the one window for which this is not so -/
  whole : a.map.IsWhole → Settings.ofArguments a = .error (.displayTooLarge a.ledCount a.videoBase)

theorem Arguments.judged {a : Arguments} (h : a.SoundElsewhere) : a.Judged := by
  have hfound := a.map.endFound
  have hsettings := Settings.ofArguments_eq h
  constructor
  case empty =>
    intro hnone
    rw [hsettings, if_pos hnone]
  case fits =>
    intro hsome hwhole hfits
    obtain ⟨last, hlast, hplace⟩ := hfound.fits hwhole hfits
    rw [if_neg hsome, hlast, if_neg (Option.some_ne_none _)] at hsettings
    exact ⟨_, hsettings, rfl, rfl, (AddressMap.toNat_videoRange hlast).trans hplace⟩
  case leaves =>
    intro hsome hwhole
    rw [hsettings, if_neg hsome, ← hfound.leaves hwhole]
    constructor
    · intro herror
      refine Decidable.byContradiction fun hend => ?_
      rw [if_neg hend] at herror
      cases herror
    · exact fun hend => if_pos hend
  case whole =>
    intro hwhole
    have hsome : a.ledCount ≠ 0 := by
      intro hnone
      have hsize : 4 * (a.ledCount + 1) = 4294967296 := hwhole.2
      omega
    rw [hsettings, if_neg hsome, if_pos (hfound.whole hwhole).2]

/-- **A display window is refused exactly if it does not fit**, with one exception.  Let the last
byte of a window be where its base and its number of LEDs put it, counted with numbers of any size,
and let the window not be the whole address space.  Then

* if that is an address, it is the end of the window;
* if it lies above the greatest address, the window has no end;
* arguments that are in order apart from the display, and that have a LED, are refused because of
  the window exactly if it has no end, and are otherwise taken with this window.

The window that is the whole address space has no end and is refused in the same way. -/
theorem display_window_fits_or_is_refused (map : AddressMap) :
    map.EndFound ∧ ∀ a : Arguments, a.map = map → a.SoundElsewhere → a.Judged :=
  ⟨map.endFound, fun _ _ => Arguments.judged⟩

/-- Sixty-four LEDs right below the end of the address space, and one byte too high. -/
theorem display_window_fits_or_is_refused_of_top :
    let top : Arguments := { videoBase := 0xfffffefc }
    let high : Arguments := { videoBase := 0xfffffefd }
    (top.SoundElsewhere ∧ top.map.lastByte = 0xffffffff ∧ high.map.lastByte = 0x100000000) ∧
    (∃ s, Settings.ofArguments top = .ok s ∧ s.map.videoRange = (0xfffffefc, 0xffffffff)) ∧
    Settings.ofArguments high = .error (.displayTooLarge 64 0xfffffefd) := by
  intro top high
  have htop : top.SoundElsewhere := by constructor <;> decide
  have hhigh : high.SoundElsewhere := by constructor <;> decide
  have hfits : top.map.lastByte = 0xffffffff := by decide
  have hout : high.map.lastByte = 0x100000000 := by decide
  have htopJudged := (display_window_fits_or_is_refused top.map).2 top rfl htop
  have hhighJudged := (display_window_fits_or_is_refused high.map).2 high rfl hhigh
  obtain ⟨s, hok, -, hbase, hlast⟩ :=
    htopJudged.fits (by decide) (by decide) (by rw [hfits]; decide)
  rw [hfits] at hlast
  refine ⟨⟨htop, hfits, hout⟩, ⟨s, hok, Prod.ext hbase (UInt32.toNat_inj.mp hlast)⟩, ?_⟩
  exact (hhighJudged.leaves (by decide) (by decide)).mpr (by rw [hout]; decide)

/-- The whole address space as a display window: its last byte, which is the last byte of its last
LED, is at the greatest address, and it is refused. -/
theorem whole_window_is_refused :
    let a : Arguments := { ledCount := 1073741823, videoBase := 0 }
    a.map.lastByte = topAddress.toNat ∧ a.map.ledAddress? 1073741822 = some (topAddress - 3) ∧
      a.map.videoEnd? = none ∧
      Settings.ofArguments a = .error (.displayTooLarge 1073741823 0) := by
  refine ⟨by decide, by decide, by decide, ?_⟩
  rw [Settings.ofArguments_eq (by constructor <;> decide), if_neg (by decide), if_pos (by decide)]

end Ledboard
