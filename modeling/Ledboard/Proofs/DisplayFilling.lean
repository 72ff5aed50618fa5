/-
# A loop that fills the display

A program of 61 bytes gives every LED a colour of its own.  It counts in register 1 (`i`), computes
the address of the LED's word in register 2 (`addr`), writes a colour there and jumps back as long
as the count is below the number of LEDs.  Whatever the number of LEDs and the place of the display
window are, it comes to its halt after twenty cycles for each LED and three more, with all LEDs lit
(`fills_the_display`).

* **Assembling** (`assemble_source`).  The source is a source of lines, into which two decimal
  numbers are put.
* **One round** (`filled_step`).  A round is two straight lines of code, with a write between them
  and a jump behind them.  The sums wrap at 32 bits; that they are the address and the count that
  are meant follows from the window's fitting the address space.
* **All rounds** (`filled_after`).  By induction on the rounds.  The invariant (`Filled`) says where
  the processor stands, what it counted, and which LEDs are lit.
-/
import Ledboard.Proofs.Assembly.Lines
import Ledboard.Proofs.Batches
import Ledboard.Proofs.LedWords
import Ledboard.Proofs.StraightLine

namespace Ledboard.Filling

open Assembly Instruction IdealProcessor

/-! ## 1. The source -/

/-- The lines of the source, without their indentation. -/
def lines (videoBase ledCount : Nat) : List String :=
  ["#name i i1",
    "#name addr i2",
    "push 0",
    "pop i",
    "#here loop",
    "// addr = video + (1 + i) * 4",
    "push i",
    "push 1",
    "add",
    "push 4",
    "mul",
    "push " ++ Text.decimal videoBase,
    "add",
    "pop addr",
    "// color: 0x00_01_02_03 + i",
    "push 0x010203",
    "push i",
    "add",
    "push addr",
    "write",
    "push i",
    "push 1",
    "add",
    "pop i",
    "push i",
    "push " ++ Text.decimal ledCount,
    "jl loop",
    "hlt"]

/-- The indentation of the lines. -/
def indentation : String := "        "

/-- The source: an empty line and the indented lines, with the indentation of one more line. -/
def source (videoBase ledCount : Nat) : String :=
  "\n" ++ String.join ((lines videoBase ledCount).map (fun line => indentation ++ line ++ "\n"))
    ++ indentation

/-- What the lines ask for, line by line. -/
def actions (videoBase ledCount : Int32) : List (Option Action) :=
  [some (.nameRegister "i" 1),
    some (.nameRegister "addr" 2),
    some (.emit (.pushInt 0)),
    some (.pop (.name "i")),
    some (.here "loop"),
    none,
    some (.push (.name "i")),
    some (.emit (.pushInt 1)),
    some (.emit .add),
    some (.emit (.pushInt 4)),
    some (.emit .mul),
    some (.emit (.pushInt videoBase)),
    some (.emit .add),
    some (.pop (.name "addr")),
    none,
    some (.emit (.pushInt 0x010203)),
    some (.push (.name "i")),
    some (.emit .add),
    some (.push (.name "addr")),
    some (.emit .write),
    some (.push (.name "i")),
    some (.emit (.pushInt 1)),
    some (.emit .add),
    some (.pop (.name "i")),
    some (.push (.name "i")),
    some (.emit (.pushInt ledCount)),
    some (.jump "loop"),
    some (.emit .halt)]

/-- In front of the loop: the count starts at zero. -/
def opening : List Instruction := [.pushInt 0, .popReg 1]

/-- The first part of a round: the colour and, on top of it, the address. -/
def coloring (videoBase : Int32) : List Instruction :=
  [.pushReg 1, .pushInt 1, .add, .pushInt 4, .mul, .pushInt videoBase, .add, .popReg 2,
    .pushInt 0x010203, .pushReg 1, .add, .pushReg 2]

/-- The second part of a round: the count goes up and is compared. -/
def counting (ledCount : Int32) : List Instruction :=
  [.pushReg 1, .pushInt 1, .add, .popReg 1, .pushReg 1, .pushInt ledCount]

/-- The program. -/
def program (videoBase ledCount : Int32) : List Instruction :=
  opening ++ (coloring videoBase ++ (.write :: (counting ledCount ++ [.jumpIfLess (-50), .halt])))

theorem toList_source (videoBase ledCount : Nat) :
    (source videoBase ledCount).toList = '\n' ::
      (indented indentation.toList ((lines videoBase ledCount).map String.toList) ++
        indentation.toList) := by
  simp only [source, String.toList_append, String.toList_join, List.flatMap_map, indented,
    List.append_assoc]
  rfl

/-- Each line asks for its action. -/
theorem lines_ask {videoBase ledCount : Nat} (hbase : videoBase < 4294967296)
    (hcount : ledCount < 4294967296) :
    List.Forall₂ Line ((lines videoBase ledCount).map String.toList)
      (actions (Int32.ofInt videoBase) (Int32.ofInt ledCount)) := by
  have hi : (Lexeme.name "i").WrittenAs "i".toList :=
    writtenAs_name 'i' [] rfl (by decide) (by decide) (by decide) (by decide)
  have haddr : (Lexeme.name "addr").WrittenAs "addr".toList :=
    writtenAs_name 'a' ['d', 'd', 'r'] rfl (by decide) (by decide) (by decide)
      (by decide)
  have hloop : (Lexeme.name "loop").WrittenAs "loop".toList :=
    writtenAs_name 'l' ['o', 'o', 'p'] rfl (by decide) (by decide) (by decide)
      (by decide)
  have hcolor : (Lexeme.number 0x010203).WrittenAs "0x010203".toList :=
    writtenAs_hex "010203".toList (n := 0x010203) (by decide) (by decide) (by decide)
  have hnumber : ∀ n : Nat, n < 4294967296 → ∀ text v, text = "push " ++ Text.decimal n →
      v = Int32.ofInt n → Line text.toList (some (.emit (.pushInt v))) := by
    rintro n hn _ _ rfl rfl
    have hsays := says_unary rfl rfl (writtenAs_keyword .push) (writtenAs_decimal hn)
    rw [String.toList_append]
    exact .statement hsays
  have hpushI : Line "push i".toList (some (.push (.name "i"))) :=
    .statement (says_unary rfl rfl (writtenAs_keyword .push) hi)
  have hpopI : Line "pop i".toList (some (.pop (.name "i"))) :=
    .statement (says_unary rfl rfl (writtenAs_keyword .pop) hi)
  have hpushOne : Line "push 1".toList (some (.emit (.pushInt 1))) :=
    hnumber 1 (by decide) "push 1" 1 (by decide +kernel) (by decide)
  have hadd : Line "add".toList (some (.emit .add)) := .statement (says_plain (k := .add) rfl)
  refine .cons ?_ <| .cons ?_ <| .cons ?_ <| .cons hpopI <| .cons ?_ <|
    .cons ?_ <| .cons hpushI <| .cons hpushOne <| .cons hadd <| .cons ?_ <| .cons ?_ <|
    .cons (hnumber videoBase hbase _ _ rfl rfl) <| .cons hadd <| .cons ?_ <|
    .cons ?_ <| .cons ?_ <| .cons hpushI <| .cons hadd <| .cons ?_ <| .cons ?_ <|
    .cons hpushI <| .cons hpushOne <| .cons hadd <| .cons hpopI <| .cons hpushI <|
    .cons (hnumber ledCount hcount _ _ rfl rfl) <| .cons ?_ <| .cons ?_ .nil
  · exact .statement (says_naming hi (writtenAs_register (n := 1) (by decide)))
  · exact .statement (says_naming haddr (writtenAs_register (n := 2) (by decide)))
  · exact hnumber 0 (by decide) "push 0" 0 (by decide +kernel) (by decide)
  · exact .statement (says_unary rfl rfl (writtenAs_directive (Or.inr ⟨rfl, rfl⟩)) hloop)
  · exact .comment " addr = video + (1 + i) * 4".toList (by decide)
  · exact hnumber 4 (by decide) "push 4" 4 (by decide +kernel) (by decide)
  · exact .statement (says_plain (k := .mul) rfl)
  · exact .statement (says_unary rfl rfl (writtenAs_keyword .pop) haddr)
  · exact .comment " color: 0x00_01_02_03 + i".toList (by decide)
  · exact .statement (says_unary rfl rfl (writtenAs_keyword .push) hcolor)
  · exact .statement (says_unary rfl rfl (writtenAs_keyword .push) haddr)
  · exact .statement (says_plain (k := .write) rfl)
  · exact .statement (says_unary rfl rfl (writtenAs_keyword .jl) hloop)
  · exact .statement (says_plain (k := .hlt) rfl)

theorem aliases_actions (videoBase ledCount : Int32) :
    aliases (((actions videoBase ledCount).filterMap id).map Action.bare) =
      [("addr", 2), ("i", 1)] := rfl

theorem link_actions (videoBase ledCount : Int32) :
    (link (((actions videoBase ledCount).filterMap id).map Action.bare)).map
      Program.instructions = .ok (program videoBase ledCount) := by
  simp only [link, aliases_actions]
  simp [actions, Action.bare, Action.width, width, Layout.addAll, Layout.add, Layout.emit,
    Layout.empty, Assembly.registerOf, List.lookup_cons, bind, Except.bind, Except.map,
    settleAll, settle, reaches]
  rfl

/-- **The source is assembled into the program**, whichever numbers of 32 bits it holds. -/
theorem assemble_source {videoBase ledCount : Nat} (hbase : videoBase < 4294967296)
    (hcount : ledCount < 4294967296) :
    ∃ p, assemble (source videoBase ledCount) = .ok p ∧
      p.bytes = encodeAll (program (Int32.ofInt videoBase) (Int32.ofInt ledCount)) := by
  obtain ⟨bare, hbare, hprogram⟩ :=
    map_eq_ok_iff.mp (link_actions (Int32.ofInt videoBase) (Int32.ofInt ledCount))
  obtain ⟨p, hp, hsame⟩ := assemble_lines (List.all_eq_true.mp rfl)
    (toList_source videoBase ledCount) (lines_ask hbase hcount) hbare
  refine ⟨p, hp, ?_⟩
  rw [← hprogram, ← hsame]
  exact bytesOf_eq_encodeAll p.rows

/-! ## 2. The straight lines -/

variable {s : IdealProcessor} {v : Int32}

theorem runs_opening :
    ∃ s', initial.runs? opening = some s' ∧ s'.stack = [] ∧ s'.register 1 = Word.ofInt32 0 := by
  refine ⟨_, rfl, rfl, ?_⟩
  decide +kernel

theorem runs_coloring (hstack : s.stack = []) (hi : s.register 1 = Word.ofInt32 v)
    (videoBase : Int32) :
    ∃ s', s.runs? (coloring videoBase) = some s' ∧
      s'.stack = [Word.ofInt32 ((v + 1) * 4 + videoBase), Word.ofInt32 (0x010203 + v)] ∧
      s'.register 1 = Word.ofInt32 v := by
  obtain ⟨cycles, ip, halted, registers, stack⟩ := s
  subst hstack
  have hregister : registers[1] = Word.ofInt32 v := hi
  simp [coloring, runs?, advance?, isStraight, execute?, withStack, IdealProcessor.pass,
    register_eq_getElem, hregister]

theorem runs_counting (hstack : s.stack = []) (hi : s.register 1 = Word.ofInt32 v)
    (ledCount : Int32) :
    ∃ s', s.runs? (counting ledCount) = some s' ∧
      s'.stack = [Word.ofInt32 ledCount, Word.ofInt32 (v + 1)] ∧
      s'.register 1 = Word.ofInt32 (v + 1) := by
  obtain ⟨cycles, ip, halted, registers, stack⟩ := s
  subst hstack
  have hregister : registers[1] = Word.ofInt32 v := hi
  simp [counting, runs?, advance?, isStraight, execute?, withStack, IdealProcessor.pass,
    register_eq_getElem, hregister]

/-! ## 3. Numbers -/

theorem toUInt32_ofInt (n : Nat) : (Int32.ofInt n).toUInt32 = UInt32.ofNat n :=
  UInt32.toFin_inj.mp rfl

theorem ofInt_succ (k : Nat) : Int32.ofInt k + 1 = Int32.ofInt (k + 1 : Nat) :=
  (Int32.ofInt_add k 1).symm

/-- The sum that a round computes is the address of the LED's word. -/
theorem toNat_address (videoBase : Nat) {k : Nat} (h : videoBase + 4 * (k + 1) < 4294967296) :
    (Word.ofInt32 ((Int32.ofInt k + 1) * 4 + Int32.ofInt videoBase)).toUInt32.toNat =
      videoBase + 4 * (k + 1) := by
  have hsum : (Int32.ofInt k + 1) * 4 + Int32.ofInt videoBase =
      Int32.ofInt (videoBase + 4 * (k + 1) : Nat) := by
    have hfour : (4 : Int32) = Int32.ofInt 4 := by decide
    rw [ofInt_succ, hfour, ← Int32.ofInt_mul, ← Int32.ofInt_add]
    congr 1
    omega
  rw [hsum, Word.ofInt32, Word.toUInt32_ofUInt32, toUInt32_ofInt, UInt32.toNat_ofNat_of_lt' h]

/-- The colour of a LED: the low three bytes of a number that goes up by one from LED to LED. -/
def color (led : Nat) : Rgb :=
  ⟨UInt8.ofNat ((0x010203 + led) / 65536), UInt8.ofNat ((0x010203 + led) / 256),
    UInt8.ofNat (0x010203 + led)⟩

theorem ofWord_color {k : Nat} (h : 0x010203 + k < 4294967296) :
    Rgb.ofWord (Word.ofInt32 (0x010203 + Int32.ofInt k)) = color k := by
  have hsum : (0x010203 : Int32) + Int32.ofInt k = Int32.ofInt (0x010203 + k : Nat) := by
    have hcolor : (0x010203 : Int32) = Int32.ofInt 0x010203 := by decide
    rw [hcolor, ← Int32.ofInt_add]
    rfl
  rw [hsum, Word.ofInt32, toUInt32_ofInt, Word.ofUInt32, UInt32.toNat_ofNat_of_lt' h]
  rfl

/-- The count is compared as a signed number, and is small enough for that. -/
theorem count_lt_iff {k n : Nat} (hk : k < 2147483648) (hn : n < 2147483648) :
    (Word.ofInt32 (Int32.ofInt k)).toInt32 < (Word.ofInt32 (Int32.ofInt n)).toInt32 ↔ k < n := by
  rw [Word.toInt32_ofInt32, Word.toInt32_ofInt32, Int32.lt_iff_toInt_lt,
    Int32.toInt_ofInt_of_le (by omega) (by omega), Int32.toInt_ofInt_of_le (by omega) (by omega)]
  omega

/-! ## 4. One round -/

/-- A map with LEDs, whose display window fits the address space and whose RAM has room for the
program and ends in front of the first LED. -/
structure Fits (map : AddressMap) : Prop where
  leds : 0 < map.ledCount
  room : 61 ≤ map.ramSize
  below : map.ramSize ≤ map.videoBase.toNat + 4
  window : map.videoBase.toNat + 4 * (map.ledCount + 1) ≤ 4294967296

/-- The bytes of the program for a map. -/
def code (map : AddressMap) : List UInt8 :=
  encodeAll (program (Int32.ofInt map.videoBase.toNat) (Int32.ofInt map.ledCount))

/-- The bytes of its first instructions. -/
def front (map : AddressMap) (n : Nat) : List UInt8 :=
  encodeAll ((program (Int32.ofInt map.videoBase.toNat) (Int32.ofInt map.ledCount)).take n)

/-- The machine in front of a round, or of the halt, after some LEDs were filled. -/
structure Filled (map : AddressMap) (before : Display) (k : Nat) (m : Machine) : Prop where
  stands : ∃ s, m.StandsAt (code map) (if k < map.ledCount then 7 else 60) s ∧ s.stack = [] ∧
    s.register 1 = Word.ofInt32 (Int32.ofInt k)
  map : m.map = map
  wired : m.Wired
  colors : ∀ led < k, m.display.get? led = some (color led)
  flushes : m.display.flushes = before.flushes + k

variable {map : AddressMap} {before : Display} {k : Nat} {m : Machine}

/-- The address that a round computes reaches its LED, and no RAM. -/
theorem reaches_address (h : Fits map) (hk : k < map.ledCount) {address : UInt32}
    (haddress : address.toNat = map.videoBase.toNat + 4 * (k + 1)) : map.Reaches k address := by
  have hbelow := h.below
  have hroom := h.room
  refine ⟨hk, ?_, AddressMap.ledWord_iff.mpr (by omega)⟩
  rintro ⟨-, hram⟩
  have hsize : map.ramSize < UInt32.size := Nat.lt_of_le_of_lt (by omega) address.toNat_lt
  rw [UInt32.le_iff_toNat_le, AddressMap.toNat_ramRange hsize] at hram
  omega

theorem length_code (map : AddressMap) : (code map).length = 61 := rfl

theorem canonical_parts (videoBase ledCount : Int32) :
    (∀ i ∈ opening, i.Canonical) ∧ (∀ i ∈ coloring videoBase, i.Canonical) ∧
      ∀ i ∈ counting ledCount, i.Canonical := by
  simp [opening, coloring, counting, Canonical, registerCount]

/-- **A round writes one word**, and leads to the next round or behind the last one. -/
theorem after_round (hmap : Fits map) (hk : k < map.ledCount) {s : IdealProcessor}
    (hstands : m.StandsAt (code map) 7 s) (hstack : s.stack = [])
    (hi : s.register 1 = Word.ofInt32 (Int32.ofInt k)) :
    ∃ s' address, address.toNat = map.videoBase.toNat + 4 * (k + 1) ∧
      (m.after 20).StandsAt (code map) (if k + 1 < map.ledCount then 7 else 60) s' ∧
      s'.stack = [] ∧ s'.register 1 = Word.ofInt32 (Int32.ofInt (k + 1 : Nat)) ∧
      (m.after 20).map = m.map ∧
      (m.after 20).bus = m.bus.write address (Word.ofInt32 (0x010203 + Int32.ofInt k)) := by
  have hwindow := hmap.window
  have hroom := hmap.room
  have hbelow := hmap.below
  obtain ⟨hopening, hcoloring, hcounting⟩ := canonical_parts
    (Int32.ofInt map.videoBase.toNat) (Int32.ofInt map.ledCount)
  have hsize : (code map).length < UInt32.size := by
    rw [length_code]
    decide
  have haddress := toNat_address map.videoBase.toNat (k := k) (by omega)
  -- The colour and the address come on the stack.
  obtain ⟨s₁, hruns₁, hstack₁, hi₁⟩ :=
    runs_coloring hstack hi (Int32.ofInt map.videoBase.toNat)
  obtain ⟨hstands₁, hbus₁, hmap₁⟩ :=
    Machine.after_of_runs (front map 2) hstands hcoloring rfl hsize hruns₁
  -- They are written.
  have hbehind : (code map).length ≤ map.videoBase.toNat + 4 * (k + 1) := by
    rw [length_code]
    omega
  obtain ⟨s₂, hstands₂, hstack₂, hregisters₂, hbus₂, hmap₂⟩ :=
    Machine.standsAt_write (front map 14) hstands₁ hstack₁ rfl hsize (haddress ▸ hbehind)
  have hi₂ : s₂.register 1 = Word.ofInt32 (Int32.ofInt k) := by
    rw [← hi₁]
    simp only [register, hregisters₂]
  -- The count goes up and is compared.
  obtain ⟨s₃, hruns₃, hstack₃, hi₃⟩ := runs_counting hstack₂ hi₂ (Int32.ofInt map.ledCount)
  obtain ⟨hstands₃, hbus₃, hmap₃⟩ :=
    Machine.after_of_runs (front map 15) hstands₂ hcounting rfl hsize hruns₃
  -- Control goes back to the first part or on to the halt.
  obtain ⟨s₄, hstands₄, hstack₄, hregisters₄, hbus₄, hmap₄⟩ :=
    Machine.standsAt_jumpIfLess (front map 21) hstands₃ hstack₃ rfl hsize 7 rfl (by decide)
  have hless : (Word.ofInt32 (Int32.ofInt k + 1)).toInt32 <
      (Word.ofInt32 (Int32.ofInt map.ledCount)).toInt32 ↔ k + 1 < map.ledCount := by
    rw [ofInt_succ]
    exact count_lt_iff (by omega) (by omega)
  simp only [hless] at hstands₄
  refine ⟨s₄, _, haddress, hstands₄, hstack₄, ?_, ?_, ?_⟩
  · rw [← ofInt_succ, ← hi₃]
    simp only [register, hregisters₄]
  · exact hmap₄.trans (hmap₃.trans (hmap₂.trans hmap₁))
  · rw [← hbus₁]
    exact hbus₄.trans (hbus₃.trans hbus₂)

/-- **A round fills one LED.** -/
theorem filled_step (hmap : Fits map) (h : Filled map before k m) (hk : k < map.ledCount) :
    Filled map before (k + 1) (m.after 20) := by
  obtain ⟨s, hstands, hstack, hi⟩ := h.stands
  rw [if_pos hk] at hstands
  obtain ⟨s', address, haddress, hstands', hstack', hi', hmap', hbus'⟩ :=
    after_round hmap hk hstands hstack hi
  have hreaches : m.map.Reaches k address := h.map ▸ reaches_address hmap hk haddress
  have hdisplay : (m.after 20).display =
      (m.write address (Word.ofInt32 (0x010203 + Int32.ofInt k))).display := by
    rw [Machine.display, hbus']
    rfl
  have hlights := Machine.lights_of_reaches h.wired hreaches
    (Word.ofInt32 (0x010203 + Int32.ofInt k))
  rw [← hdisplay] at hlights
  refine ⟨⟨s', hstands', hstack', hi'⟩, hmap'.trans h.map, Machine.wired_after h.wired 20, ?_, ?_⟩
  · intro led hled
    by_cases hlast : led = k
    · have hwindow := hmap.window
      rw [hlast, hlights.color, ofWord_color (by omega)]
    · rw [hlights.others led hlast]
      exact h.colors led (by omega)
  · rw [hlights.flushes, h.flushes]
    rfl

/-! ## 5. The whole -/

/-- The machine with the program in it. -/
def start (map : AddressMap) (before : Display) (noise : Noise) : Machine :=
  ((Machine.create map before noise).load (code map)).2

variable {noise : Noise}

theorem wired_start (hleds : before.ledCount = map.ledCount) : (start map before noise).Wired :=
  (Machine.wired_of_bus (d := before) ⟨⟨_, _, rfl⟩, rfl, hleds⟩).1

/-- In front of the first round. -/
theorem filled_start (hmap : Fits map) (hleds : before.ledCount = map.ledCount) :
    Filled map before 0 ((start map before noise).after 2) := by
  have hroom := hmap.room
  have hbelow := hmap.below
  have hwindow := hmap.window
  have hsome := hmap.leds
  have hbegins : (start map before noise).bus.Begins (code map) :=
    Machine.begins_load_of_getD before noise hroom (by simp only [UInt32.size]; omega)
      (fun _ _ => rfl)
  obtain ⟨s, hruns, hstack, hi⟩ := runs_opening
  have hstands : (start map before noise).StandsAt (code map) 0 initial :=
    ⟨Processor.agrees_initial, hbegins, rfl, Nat.zero_le _, rfl⟩
  obtain ⟨hstands', hbus, hmap'⟩ := Machine.after_of_runs (front map 0) hstands
    (canonical_parts 0 0).1 rfl (by rw [length_code]; decide) hruns
  have hdisplay : ((start map before noise).after 2).display = before :=
    congrArg (fun bus : Bus => bus.displays[0]?.getD default) hbus
  refine ⟨⟨s, ?_, hstack, hi⟩, hmap', Machine.wired_after (wired_start hleds) 2, ?_, ?_⟩
  · rw [if_pos hsome]
    exact hstands'
  · intro led hled
    exact absurd hled (Nat.not_lt_zero led)
  · rw [hdisplay, Nat.add_zero]

/-- **In front of every round, and behind the last one**, all LEDs before it are filled. -/
theorem filled_after (hmap : Fits map) (hleds : before.ledCount = map.ledCount)
    (hk : k ≤ map.ledCount) :
    Filled map before k ((start map before noise).after (20 * k + 2)) := by
  induction k with
  | zero => exact filled_start hmap hleds
  | succ k ih =>
    have hstep := filled_step hmap (ih (Nat.le_of_succ_le hk)) hk
    rw [← Machine.after_add] at hstep
    exact hstep

/-- Behind the last round comes the halt, with nothing left on the stack. -/
theorem halted_step (h : Filled map before map.ledCount m) :
    m.processor.halted = false ∧ m.step.2.processor.halted = true ∧
      m.step.2.processor.sp = 0 ∧ m.step.2.bus = m.bus ∧ m.step.2.map = m.map := by
  obtain ⟨s, hstands, hstack, -⟩ := h.stands
  rw [if_neg (Nat.lt_irrefl _)] at hstands
  have hexecute : IdealProcessor.execute? { s with cycles := s.cycles + 1 } m.bus .halt =
      some ({ (pass { s with cycles := s.cycles + 1 } .halt) with halted := true }, m.bus) := rfl
  obtain ⟨hagrees, hbus, hmap⟩ := Machine.step_of_execute (i := .halt) (front map 22) hstands trivial
    rfl hexecute hstands.room
  have hsp : m.step.2.processor.sp.toNat = 4 * s.stack.length := hagrees.sp
  rw [hstack] at hsp
  exact ⟨hstands.agrees.halted.trans hstands.running, hagrees.halted, UInt32.toNat_inj.mp hsp, hbus,
    hmap⟩

/-- **The loop fills every display.**  For every map with LEDs whose display window fits the address
space, and whose RAM has room for the program and ends in front of the first LED: the source with
the start of the window and the number of LEDs in it is assembled; loaded into a new machine, it
runs for twenty cycles for each LED and three more, and not for less; and then the stack is empty,
there was one flush for each LED, and each LED reads as its own colour at its address. -/
theorem fills_the_display {last : UInt32} (hend : map.videoEnd? = some last)
    (hsome : 1 ≤ map.ledCount) (hroom : 61 ≤ map.ramSize)
    (hbelow : map.ramSize ≤ map.videoBase.toNat + 4) (hleds : before.ledCount = map.ledCount)
    (noise : Noise) :
    ∃ p, assemble (source map.videoBase.toNat map.ledCount) = .ok p ∧
      let m := ((Machine.create map before noise).load p.bytes).2
      let n := 20 * map.ledCount + 3
      (∀ limit, n ≤ limit → m.run limit = (n, m.after n)) ∧
      (∀ k < n, (m.after k).processor.halted = false) ∧
      (m.after n).processor.halted = true ∧
      (m.after n).processor.cycles.toNat = n ∧
      (m.after n).processor.sp = 0 ∧
      (m.after n).display.flushes = before.flushes + map.ledCount ∧
      ∀ led < map.ledCount, ∃ address, map.ledAddress? led = some address ∧
        ((m.after n).bus.read address).1 = (color led).toWord := by
  have hwindow : map.videoBase.toNat + 4 * (map.ledCount + 1) ≤ 4294967296 := by
    rw [← AddressMap.toNat_videoEnd hend]
    exact last.toNat_lt
  have hmap : Fits map := ⟨hsome, hroom, hbelow, hwindow⟩
  obtain ⟨p, hp, hbytes⟩ := assemble_source map.videoBase.toNat_lt
    (show map.ledCount < 4294967296 by omega)
  refine ⟨p, hp, ?_⟩
  intro m n
  have hm : m = start map before noise := by
    simp only [m, hbytes]
    rfl
  have hfilled : Filled map before map.ledCount (m.after (20 * map.ledCount + 2)) :=
    hm ▸ filled_after hmap hleds (Nat.le_refl _)
  obtain ⟨hlate, hhalted, hsp, hbus, hmap'⟩ := halted_step hfilled
  have hrunning : ∀ k < n, (m.after k).processor.halted = false :=
    fun k hk => Machine.running_of_after hlate (Nat.le_of_lt_succ hk)
  have hdisplay : (m.after n).display = (m.after (20 * map.ledCount + 2)).display :=
    congrArg (fun bus : Bus => bus.displays[0]?.getD default) hbus
  have hwired : (m.after n).bus.Wired map (m.after n).display := by
    have hwired := Machine.wired_step hfilled.wired
    rw [Machine.Wired, hmap', hfilled.map] at hwired
    exact hwired
  refine ⟨?_, hrunning, hhalted, ?_, hsp, ?_, ?_⟩
  · intro limit hlimit
    rw [Machine.run, Machine.run_go_of_halt hrunning hhalted hlimit, Nat.zero_add]
  · have hzero : m.processor.cycles = 0 := rfl
    rw [Machine.cycles_after hrunning, hzero, UInt64.zero_add, UInt64.toNat_ofNat_of_lt' (by
      simp only [UInt64.size]
      omega)]
  · rw [hdisplay, hfilled.flushes]
  · intro led hled
    have haddress : (UInt32.ofNat (map.videoBase.toNat + 4 * (led + 1))).toNat =
        map.videoBase.toNat + 4 * (led + 1) :=
      UInt32.toNat_ofNat_of_lt' (by simp only [UInt32.size]; omega)
    refine ⟨_, AddressMap.ledAddress?_eq_some_iff.mpr haddress, ?_⟩
    refine Bus.read_of_reaches hwired (reaches_address hmap hled haddress) ?_
    rw [hdisplay]
    exact hfilled.colors led hled

/-- Two LEDs at the very top of the address space. -/
theorem fills_the_display_of_two_leds :
    let map : AddressMap := ⟨61, 0xfffffff4, 0, 2⟩
    (map.videoEnd? = some 0xffffffff ∧ 1 ≤ map.ledCount ∧ 61 ≤ map.ramSize ∧
      map.ramSize ≤ map.videoBase.toNat + 4 ∧ (Display.dark 2).ledCount = map.ledCount) ∧
    ∃ p, assemble (source 0xfffffff4 2) = .ok p ∧
      let m := ((Machine.create map (Display.dark 2) (Noise.counting 0 1)).load p.bytes).2
      m.run 43 = (43, m.after 43) ∧ (m.after 43).processor.halted = true ∧
        ((m.after 43).bus.read 0xfffffffc).1 = ⟨0, 1, 2, 4⟩ := by
  intro map
  have hend : map.videoEnd? = some 0xffffffff := by decide
  have hhypotheses : 1 ≤ map.ledCount ∧ 61 ≤ map.ramSize ∧
    map.ramSize ≤ map.videoBase.toNat + 4 ∧ (Display.dark 2).ledCount = map.ledCount := by decide
  refine ⟨⟨hend, hhypotheses⟩, ?_⟩
  obtain ⟨p, hp, hrun, -, hhalted, -, -, -, hcolors⟩ := fills_the_display hend hhypotheses.1
    hhypotheses.2.1 hhypotheses.2.2.1 hhypotheses.2.2.2 (Noise.counting 0 1)
  have hcycles : 20 * map.ledCount + 3 = 43 := rfl
  obtain ⟨address, haddress, hread⟩ := hcolors 1 (by decide)
  have hsame : address = 0xfffffffc := by
    have hsecond : map.ledAddress? 1 = some 0xfffffffc := by decide
    exact Option.some.inj (haddress.symm.trans hsecond)
  rw [hcycles] at hrun hhalted hread
  rw [hsame] at hread
  exact ⟨p, hp, hrun 43 (Nat.le_refl 43), hhalted, hread⟩

end Ledboard.Filling
