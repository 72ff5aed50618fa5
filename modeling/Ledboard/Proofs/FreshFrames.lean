/-
# The LEDs show what the display holds

Two write to the frame of the display: the processor, over the bus, and the clients, with their
messages.  Both flush what they wrote, and nothing else flushes but the start.  So whatever
happens in whatever order, the LEDs show the frame, and the flushes can be counted
(`leds_are_fresh`).

* **Display** (`Display.Fresh`).  Painting and flushing, and giving one LED a colour and flushing,
  leave a display fresh.
* **Bus** (`Bus.Shows`).  The bus stays wired by the map and its display stays fresh.  A write
  flushes the display exactly if it reaches a LED (`shows_write`), so a cycle flushes once for each
  such write in its traffic (`shows_step`).
* **Board** (`Appliance.Fresh`).  The start establishes it (`fresh_start`), and what happens keeps
  it (`fresh_happen`).
-/
import Ledboard.Appliance
import Ledboard.Proofs.LedWords
import Ledboard.Proofs.Outcome

namespace Ledboard

/-! ## 1. The display -/

namespace Display

/-- A display with some LEDs that was flushed some times and shows its frame. -/
structure Fresh (leds flushes : Nat) (d : Display) : Prop where
  leds : d.ledCount = leds
  flushes : d.flushes = flushes
  shown : d.shown = some d.frame

variable {d : Display} {leds flushes : Nat}

/-- A flush makes a display fresh. -/
theorem fresh_flush (hleds : d.ledCount = leds) (hflushes : d.flushes = flushes) :
    d.flush.Fresh leds (flushes + 1) :=
  ⟨hleds, congrArg (· + 1) hflushes, rfl⟩

/-- Painting and flushing once. -/
theorem fresh_paint (h : d.Fresh leds flushes) (colors : List Rgb) :
    (d.paint colors).flush.Fresh leds (flushes + 1) :=
  fresh_flush ((ledCount_paint d colors).trans h.leds) h.flushes

/-- Giving a LED a colour and flushing once. -/
theorem fresh_lit (h : d.Fresh leds flushes) (led : Nat) (color : Rgb) :
    (d.lit led color).Fresh leds (flushes + 1) :=
  fresh_flush ((ledCount_lit d led color).trans h.leds) h.flushes

end Display

/-! ## 2. Addresses of LEDs -/

namespace AddressMap

/-- Whether a write to an address reaches a LED: the address lies behind RAM, which is asked first,
and in one of the words behind the reserved one of the display window. -/
def ReachesLed (map : AddressMap) (address : UInt32) : Prop :=
  map.ramRange.2 < address ∧ map.videoBase.toNat + 4 ≤ address.toNat ∧
    address.toNat < map.videoBase.toNat + 4 * (map.ledCount + 1)

instance (map : AddressMap) (address : UInt32) : Decidable (map.ReachesLed address) :=
  inferInstanceAs (Decidable (_ ∧ _))

/-- That is, it is one of the addresses of some LED. -/
theorem reachesLed_iff {map : AddressMap} {address : UInt32} :
    map.ReachesLed address ↔ ∃ led, map.Reaches led address := by
  have hram : map.ramRange.2 < address ↔ ¬ map.InRam address := by
    rw [← UInt32.not_le]
    exact not_congr ⟨fun h => ⟨UInt32.zero_le, h⟩, And.right⟩
  constructor
  · rintro ⟨hbehind, hlow, hhigh⟩
    refine ⟨(address.toNat - map.videoBase.toNat) / 4 - 1, ?_, hram.mp hbehind, ledWord_iff.mpr ?_⟩
    · omega
    · omega
  · rintro ⟨led, hled, hbehind, hword⟩
    rw [ledWord_iff] at hword
    exact ⟨hram.mpr hbehind, by omega, by omega⟩

end AddressMap

/-! ## 3. The bus -/

/-- A bus that is wired by a map, and whose display was flushed some times and shows its frame. -/
structure Bus.Shows (map : AddressMap) (flushes : Nat) (bus : Bus) : Prop where
  wired : ∃ ram source, bus.bindings =
    [⟨map.ramRange.1, map.ramRange.2, .ram ram⟩, ⟨map.videoRange.1, map.videoRange.2, .display 0⟩,
      ⟨map.noiseRange.1, map.noiseRange.2, .noise source⟩]
  display : ∃ d, bus.displays = #[d] ∧ d.Fresh map.ledCount flushes

namespace Bus

variable {map : AddressMap} {flushes : Nat} {bus : Bus}

/-- Such a bus is wired to a display that shows its frame. -/
theorem shows_iff :
    bus.Shows map flushes ↔ ∃ d, bus.Wired map d ∧ d.Fresh map.ledCount flushes := by
  constructor
  · rintro ⟨hwindows, d, hdisplays, hfresh⟩
    exact ⟨d, ⟨hwindows, hdisplays, hfresh.leds⟩, hfresh⟩
  · rintro ⟨d, hwired, hfresh⟩
    exact ⟨hwired.windows, d, hwired.displays, hfresh⟩

/-- Reading shows nothing. -/
theorem shows_read (h : bus.Shows map flushes) (address : UInt32) :
    (bus.read address).2.Shows map flushes := by
  obtain ⟨d, hwired, hfresh⟩ := shows_iff.mp h
  exact shows_iff.mpr ⟨d, wired_read hwired address, hfresh⟩

/-- **A write is flushed exactly if it reaches a LED.** -/
theorem shows_write (h : bus.Shows map flushes) (address : UInt32) (word : Word) :
    (bus.write address word).Shows map (flushes + if map.ReachesLed address then 1 else 0) := by
  obtain ⟨d, hwired, hfresh⟩ := shows_iff.mp h
  rcases wired_write hwired address word with ⟨led, hreaches, hlit⟩ | ⟨hnone, hsame⟩
  · rw [if_pos (AddressMap.reachesLed_iff.mpr ⟨led, hreaches⟩)]
    exact shows_iff.mpr ⟨_, hlit, Display.fresh_lit hfresh led _⟩
  · have hnot : ¬ map.ReachesLed address := by
      rw [AddressMap.reachesLed_iff]
      rintro ⟨led, hreaches⟩
      exact hnone led hreaches
    rw [if_neg hnot]
    exact shows_iff.mpr ⟨d, hsame, hfresh⟩

/-- Loading a program shows nothing. -/
theorem shows_load (h : bus.Shows map flushes) (offset : Nat) (program : List UInt8) :
    (bus.load offset program).2.Shows map flushes := by
  obtain ⟨⟨ram, source, hbindings⟩, hdisplay⟩ := h
  rcases bus with ⟨bindings, displays⟩
  subst hbindings
  exact ⟨⟨_, source, rfl⟩, hdisplay⟩

/-- Another display in the place of the first. -/
theorem shows_modify (h : bus.Shows map flushes) {d : Display} {more : Nat}
    (hd : d.Fresh map.ledCount more) :
    Bus.Shows map more { bus with displays := bus.displays.modify 0 (fun _ => d) } := by
  obtain ⟨hwired, old, hdisplays, -⟩ := h
  refine ⟨hwired, d, ?_, hd⟩
  simp only [hdisplays]
  rfl

end Bus

/-- Whether a transaction is a write that reaches a LED. -/
def Transaction.reachesLed (map : AddressMap) : Transaction → Bool
  | .read _ _ => false
  | .write address _ => decide (map.ReachesLed address)

/-- What transactions show, one after another. -/
theorem Bus.shows_replay {map : AddressMap} {flushes : Nat} {bus : Bus} (h : bus.Shows map flushes)
    (log : List Transaction) :
    (log.foldl Transaction.apply bus).Shows map
      (flushes + log.countP (Transaction.reachesLed map)) := by
  induction log generalizing bus flushes with
  | nil => exact h
  | cons t rest ih =>
    rw [List.foldl_cons, List.countP_cons, Nat.add_comm (List.countP _ rest), ← Nat.add_assoc]
    cases t with
    | read address word => exact ih (shows_read h address)
    | write address word =>
      have hrest := ih (shows_write h address word)
      simp only [Transaction.reachesLed, decide_eq_true_eq]
      exact hrest

/-- **A step shows a frame for each of its writes that reaches a LED.** -/
theorem Machine.shows_step {map : AddressMap} {flushes : Nat} {m : Machine}
    (h : m.bus.Shows map flushes) :
    m.step.2.bus.Shows map (flushes + m.traffic.countP (Transaction.reachesLed map)) := by
  rw [bus_step_eq_replay]
  exact Bus.shows_replay h m.traffic

/-! ## 4. Messages -/

/-- Whether a message is one of the four display commands: bitmap, levels, palette or triples. -/
def isDisplayCommand : List UInt8 → Bool
  | [] => false
  | tag :: _ => [66, 77, 67, 84].contains tag.toNat

/-- The display commands are those that have colours for the LEDs. -/
theorem isSome_colors? (message : List UInt8) (leds : Nat) :
    ((Command.ofMessage message).colors? leds).isSome = isDisplayCommand message := by
  cases message with
  | nil => rfl
  | cons tag body =>
    simp only [Command.ofMessage, Command.ofTag, isDisplayCommand]
    split <;> simp_all [Command.colors?]

/-- A command that has no colours leaves the display as it is. -/
theorem Command.display_of_run {c : Command} {store : ProgramStore} {board next : Board}
    {effect : Effect} (hcolors : c.colors? board.display.ledCount = none)
    (h : c.run store board = .ok (effect, next)) : next.display = board.display := by
  simp only [run, hcolors] at h
  cases c with
  | resetStore =>
    obtain ⟨files, -, hnext⟩ := map_eq_ok_iff.mp h
    rw [← (Prod.mk.inj hnext).2]
  | appendStore body =>
    obtain ⟨files, -, hnext⟩ := map_eq_ok_iff.mp h
    rw [← (Prod.mk.inj hnext).2]
  | _ => rw [← (Prod.mk.inj (Except.ok.inj h)).2]

/-- **A message shows a frame exactly if it is a display command**, which never fails. -/
theorem Board.dispatch_display (board : Board) (store : ProgramStore) (message : List UInt8) :
    (isDisplayCommand message = true ∧ ∃ effect next colors,
        board.dispatch store message = .ok (effect, next) ∧
          next.display = (board.display.paint colors).flush) ∨
      (isDisplayCommand message = false ∧ ∀ effect next,
        board.dispatch store message = .ok (effect, next) → next.display = board.display) := by
  rw [← isSome_colors? message board.display.ledCount]
  cases hcolors : (Command.ofMessage message).colors? board.display.ledCount with
  | some colors =>
    refine Or.inl ⟨rfl, .display colors.length,
      { board with display := (board.display.paint colors).flush }, colors, ?_, rfl⟩
    simp only [Board.dispatch, Command.run, hcolors]
  | none => exact Or.inr ⟨rfl, fun effect next hnext => Command.display_of_run hcolors hnext⟩

/-! ## 5. The whole board -/

/-- Loading RAM leaves the machine as it was, or loads some program. -/
theorem Boot.machine_loadRam (m : Machine) (files : FileTree) (default : Option String)
    (store : ProgramStore) :
    (loadRam m files default store).machine = m ∨
      ∃ program, (loadRam m files default store).machine = (m.load program).2 := by
  have hstore : (loadStore m files store).machine = m ∨
      ∃ program, (loadStore m files store).machine = (m.load program).2 := by
    unfold loadStore
    split
    · exact Or.inl rfl
    · exact Or.inr ⟨_, rfl⟩
  unfold loadRam
  split
  · exact hstore
  · split
    · exact Or.inr ⟨_, rfl⟩
    · exact hstore

namespace Appliance

/-- A board whose display was flushed some times and shows its frame. -/
def Fresh (a : Appliance) (flushes : Nat) : Prop := a.machine.bus.Shows a.settings.map flushes

variable {a : Appliance} {flushes : Nat}

/-- The display that clients reach is the one on the bus. -/
theorem fresh_display (h : a.Fresh flushes) :
    a.machine.display.Fresh a.settings.map.ledCount flushes := by
  obtain ⟨-, d, hdisplays, hd⟩ := h
  have hdisplay : a.machine.display = d := by
    rw [Machine.display, hdisplays]
    rfl
  rw [hdisplay]
  exact hd

/-- What clients made of a display takes its place on the bus. -/
theorem fresh_withBoard (h : a.Fresh flushes) {board : Board} {more : Nat}
    (hboard : board.display.Fresh a.settings.map.ledCount more) : (a.withBoard board).Fresh more :=
  Bus.shows_modify h hboard

/-- How often something that happens shows a frame. -/
def showings (a : Appliance) : Happening → Nat
  | .cycle => a.machine.traffic.countP (Transaction.reachesLed a.settings.map)
  | .message bytes => if isDisplayCommand bytes then 1 else 0

/-- **Whatever happens leaves a board fresh.** -/
theorem fresh_happen (h : a.Fresh flushes) (happening : Happening) :
    (a.happen happening).Fresh (flushes + a.showings happening) := by
  cases happening with
  | cycle => exact Machine.shows_step h
  | message bytes =>
    simp only [happen, dispatch, showings]
    rcases a.board.dispatch_display a.site.store bytes with
      ⟨hcommand, effect, next, colors, hnext, hpainted⟩ | ⟨hother, hsame⟩
    · simp only [hnext, Except.map, hcommand, if_true]
      refine fresh_withBoard h ?_
      rw [hpainted]
      exact Display.fresh_paint (fresh_display h) colors
    · rw [hother]
      cases hdispatch : a.board.dispatch a.site.store bytes with
      | error cause => exact h
      | ok outcome =>
        refine fresh_withBoard h ?_
        rw [hsame outcome.1 outcome.2 hdispatch]
        exact fresh_display h

/-- A board that was started has flushed its display once. -/
theorem fresh_start (settings : Settings) (network : Network) (noise : Noise) (files : FileTree) :
    (start settings network noise files).1.Fresh 1 := by
  have hdark : (Boot.display settings.map.ledCount).Fresh settings.map.ledCount 1 := by
    refine Display.fresh_flush ?_ rfl
    simp only [Display.fill, Display.dark, Display.ledCount, Array.size_replicate]
  have hmachine : (Boot.machine settings noise).bus.Shows settings.map 1 :=
    ⟨⟨_, _, rfl⟩, _, rfl, hdark⟩
  have hloaded : (Boot.loadRam (Boot.machine settings noise) files settings.defaultProgram
      ⟨settings.programStore⟩).machine.bus.Shows settings.map 1 := by
    rcases Boot.machine_loadRam (Boot.machine settings noise) files settings.defaultProgram
      ⟨settings.programStore⟩ with hsame | ⟨program, hprogram⟩
    · rw [hsame]
      exact hmachine
    · rw [hprogram]
      exact Bus.shows_load hmachine 0 program
  exact hloaded

/-- How many display commands are among some things that happen. -/
def displayCommands (happenings : List Happening) : Nat :=
  happenings.countP fun
    | .cycle => false
    | .message bytes => isDisplayCommand bytes

/-- How many writes reach a LED while some things happen, one after another. -/
def ledWrites (a : Appliance) : List Happening → Nat
  | [] => 0
  | .cycle :: rest =>
    a.machine.traffic.countP (Transaction.reachesLed a.settings.map) +
      ledWrites (a.happen .cycle) rest
  | .message bytes :: rest => ledWrites (a.happen (.message bytes)) rest

/-- **So does any number of things that happen.** -/
theorem fresh_live (h : a.Fresh flushes) (happenings : List Happening) :
    (a.live happenings).Fresh (flushes + displayCommands happenings + a.ledWrites happenings) := by
  induction happenings generalizing a flushes with
  | nil => exact h
  | cons happening rest ih =>
    have hrest := ih (fresh_happen h happening)
    have hcount : flushes + a.showings happening + displayCommands rest +
        (a.happen happening).ledWrites rest =
        flushes + displayCommands (happening :: rest) + a.ledWrites (happening :: rest) := by
      cases happening with
      | cycle =>
        simp only [showings, displayCommands, ledWrites, List.countP_cons, Bool.false_eq_true,
          if_false]
        omega
      | message bytes =>
        simp only [showings, displayCommands, ledWrites, List.countP_cons]
        omega
    rw [← hcount]
    exact hrest

/-- **The LEDs never show a stale frame.**  From the start of a board on, whatever its settings and
its files are, and whatever its processor and its clients do in whatever order:

* what the LEDs show is the frame that the display holds;
* the display was flushed once at the start, once for each display command, and once for each
  write of the processor that reached a LED. -/
theorem leds_are_fresh (settings : Settings) (network : Network) (noise : Noise) (files : FileTree)
    (happenings : List Happening) :
    let first := (start settings network noise files).1
    let last := first.live happenings
    last.machine.display.shown = some last.machine.display.frame ∧
      last.machine.display.flushes =
        1 + displayCommands happenings + first.ledWrites happenings := by
  intro first last
  have hlast : last.Fresh (1 + displayCommands happenings + first.ledWrites happenings) :=
    fresh_live (fresh_start settings network noise files) happenings
  have hdisplay := fresh_display hlast
  exact ⟨hdisplay.shown, hdisplay.flushes⟩

/-- A program pushes a colour and the address of the first LED in three bytes too far, which is
still its word, and writes; a client paints before that and adds to the store meanwhile. -/
example :
    let settings : Settings := ⟨.v4 [0, 0, 0, 0] 80, ⟨16, 64, 128, 2⟩, "ram.bin", none,
      "index.html", 1, 1, 1, none, "info"⟩
    let files := FileTree.empty.put "ram.bin" [2, 0, 7, 8, 9, 2, 0, 0, 0, 71, 8]
    let first := (start settings .up (Noise.counting 0 1) files).1
    let happenings : List Happening :=
      [.message [77, 5, 6], .cycle, .cycle, .message [85], .cycle, .cycle]
    first.ledWrites happenings = 1 ∧ (first.live happenings).machine.display =
      ⟨#[⟨7, 8, 9⟩, ⟨6, 6, 6⟩], 3, some #[⟨7, 8, 9⟩, ⟨6, 6, 6⟩]⟩ := by
  decide +kernel

end Appliance

end Ledboard
