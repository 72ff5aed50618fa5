/-
# Two ways to paint

LEDs get their colours in two ways.  A message brings three bytes for each of the first LEDs, and
the display takes them all at once; or words are written over the bus, each to the address of one
LED.  The first counts triples of bytes, the second computes addresses with a reserved word in
front.  Both ways come to the same frame, in whatever order the words are written
(`dispatch_agrees_with_writes`).

What both do is one relation: of two machines, the second is the first with new colours for some of
its LEDs (`Machine.Recolors`).  The frame that it leads to depends on which LEDs these are, and not
on the order in which they got their colours (`Recolors.frame_eq`).  The machine of a board is wired
by the map in its settings, from the start on (`wired_live`), so that this holds of every board at
work.
-/
import Ledboard.Proofs.FreshFrames

namespace Ledboard

/-! ## 1. The colours of a message -/

/-- The colour that a body of triples has for a LED. -/
def tripleAt (body : List UInt8) (led : Nat) : Rgb :=
  ⟨body.getD (3 * led) 0, body.getD (3 * led + 1) 0, body.getD (3 * led + 2) 0⟩

/-- The colours of a body are those of its complete triples, by their numbers. -/
theorem tripleColors_eq (body : List UInt8) :
    tripleColors body = (List.range (body.length / 3)).map (tripleAt body) := by
  induction body using tripleColors.induct with
  | case1 r g b rest ih =>
    have hlength : (r :: g :: b :: rest).length / 3 = rest.length / 3 + 1 := by
      simp only [List.length_cons]
      omega
    rw [tripleColors, ih, hlength, List.range_succ_eq_map, List.map_cons, List.map_map]
    rfl
  | case2 body hshort =>
    have hlength : body.length / 3 = 0 := by
      refine Nat.div_eq_of_lt (Nat.lt_of_not_le fun hlong => ?_)
      match body with
      | [] | [_] | [_, _] => simp only [List.length_cons, List.length_nil] at hlong; omega
      | r :: g :: b :: rest => exact hshort r g b rest rfl
    rw [hlength, tripleColors]
    · rfl
    · exact hshort

namespace Display

/-- Painting from one LED on. -/
theorem getElem?_paint_go (frame : Frame) (first : Nat) (colors : List Rgb) (led : Nat) :
    (paint.go frame first colors)[led]? =
      if first ≤ led ∧ led < first + colors.length ∧ led < frame.size then colors[led - first]?
      else frame[led]? := by
  induction colors generalizing frame first with
  | nil =>
    rw [if_neg (by simp only [List.length_nil]; omega)]
    rfl
  | cons c cs ih =>
    rw [paint.go, ih, Array.size_setIfInBounds, Array.getElem?_setIfInBounds, List.length_cons]
    rcases Nat.lt_trichotomy led first with hbefore | rfl | hbehind
    · rw [if_neg (by omega), if_neg (by omega), if_neg (by omega)]
    · by_cases hled : led < frame.size
      · rw [if_neg (by omega), if_pos rfl, if_pos hled, if_pos (by omega), Nat.sub_self]
        rfl
      · rw [if_neg (by omega), if_pos rfl, if_neg hled, if_neg (by omega),
          Array.getElem?_eq_none (by omega)]
    · have hsucc : led - first = led - (first + 1) + 1 := by omega
      rw [if_neg (show ¬ first = led by omega), hsucc, List.getElem?_cons_succ]
      simp only [show (first + 1 ≤ led) = (first ≤ led) by simp only [eq_iff_iff]; omega,
        show first + 1 + cs.length = first + (cs.length + 1) by omega]

/-- The first LEDs have the colours that they were painted with, and the others have theirs. -/
theorem get?_paint_range {d : Display} {n : Nat} (hn : n ≤ d.ledCount) (color : Nat → Rgb)
    (led : Nat) :
    (d.paint ((List.range n).map color)).get? led =
      if led < n then some (color led) else d.get? led := by
  have hgo := getElem?_paint_go d.frame 0 ((List.range n).map color) led
  rw [List.length_map, List.length_range, Nat.zero_add, Nat.sub_zero] at hgo
  by_cases hled : led < n
  · have hsize : led < d.frame.size := Nat.lt_of_lt_of_le hled hn
    rw [if_pos ⟨Nat.zero_le _, hled, hsize⟩, List.getElem?_map, List.getElem?_range hled] at hgo
    rw [if_pos hled]
    exact hgo
  · rw [if_neg (by omega)] at hgo
    rw [if_neg hled]
    exact hgo

end Display

/-! ## 2. New colours for some LEDs -/

/-- What it means for a machine to be another one with new colours for some of its LEDs, as far as
the display is concerned. -/
structure Machine.Recolors (leds : List Nat) (color : Nat → Rgb) (before after : Machine) :
    Prop where
  wired : after.Wired
  map : after.map = before.map
  painted : ∀ led ∈ leds, after.display.get? led = some (color led)
  kept : ∀ led, led ∉ leds → after.display.get? led = before.display.get? led

namespace Machine

variable {m after : Machine} {leds : List Nat} {color : Nat → Rgb} {addressOf : Nat → UInt32}

/-- **The frame does not depend on the order**, or on how the colours got there. -/
theorem Recolors.frame_eq {after' : Machine} {leds' : List Nat} (h : Recolors leds color m after)
    (h' : Recolors leds' color m after') (hleds : ∀ led, led ∈ leds ↔ led ∈ leds') :
    after.display.frame = after'.display.frame := by
  refine Array.ext_getElem? ?_
  intro led
  change after.display.get? led = after'.display.get? led
  by_cases hled : led ∈ leds
  · rw [h.painted led hled, h'.painted led ((hleds led).mp hled)]
  · rw [h.kept led hled, h'.kept led (mt (hleds led).mpr hled)]

/-- The words of LEDs with new colours read as these. -/
theorem Recolors.read (h : Recolors leds color m after) {led : Nat} {address : UInt32}
    (hled : led ∈ leds) (hreaches : m.map.Reaches led address) :
    (after.bus.read address).1 = (color led).toWord :=
  Bus.read_of_reaches h.wired (h.map ▸ hreaches) (h.painted led hled)

/-- The machine after words were written to the addresses of some LEDs, one after another. -/
def writeWords (m : Machine) (addressOf : Nat → UInt32) (wordOf : Nat → Word) (leds : List Nat) :
    Machine :=
  leds.foldl (fun m led => m.write (addressOf led) (wordOf led)) m

/-- **Words that are written to LEDs give them colours**, in whatever order, and however often. -/
theorem recolors_writeWords (h : m.Wired) (wordOf : Nat → Word)
    (hreaches : ∀ led ∈ leds, m.map.Reaches led (addressOf led)) :
    Recolors leds (fun led => Rgb.ofWord (wordOf led)) m (m.writeWords addressOf wordOf leds) := by
  induction leds generalizing m with
  | nil => exact ⟨h, rfl, List.forall_mem_nil _, fun _ _ => rfl⟩
  | cons led rest ih =>
    obtain ⟨hfirst, hlater⟩ := List.forall_mem_cons.mp hreaches
    have hrest := ih (display_write h (addressOf led) (wordOf led)).1 hlater
    have hlights := lights_of_reaches h hfirst (wordOf led)
    constructor
    case wired => exact hrest.wired
    case map => exact hrest.map
    case painted =>
      intro other hother
      by_cases hagain : other ∈ rest
      · exact hrest.painted other hagain
      · obtain rfl : other = led := (List.mem_cons.mp hother).resolve_right hagain
        exact (hrest.kept other hagain).trans hlights.color
    case kept =>
      intro other hother
      rw [List.mem_cons, not_or] at hother
      exact (hrest.kept other hother.2).trans (hlights.others other hother.1)

/-- A change of the display that keeps the number of LEDs keeps the wiring. -/
theorem wired_modifyDisplay (h : m.Wired) (change : Display → Display)
    (hcount : (change m.display).ledCount = m.display.ledCount) :
    (m.modifyDisplay change).Wired ∧ (m.modifyDisplay change).display = change m.display := by
  refine wired_of_bus (m := m.modifyDisplay change) ⟨h.windows, ?_, hcount.trans h.leds⟩
  have hdisplays : (m.modifyDisplay change).bus.displays = m.bus.displays.modify 0 change := rfl
  rw [hdisplays, h.displays]
  rfl

/-- **A display that was painted and flushed has new colours for its first LEDs.** -/
theorem recolors_paint (h : m.Wired) {n : Nat} (hn : n ≤ m.map.ledCount) (color : Nat → Rgb) :
    Recolors (List.range n) color m
      (m.modifyDisplay (fun _ => (m.display.paint ((List.range n).map color)).flush)) := by
  obtain ⟨hwired, hdisplay⟩ := wired_modifyDisplay h
    (fun _ => (m.display.paint ((List.range n).map color)).flush)
    (by rw [Display.ledCount_flush, Display.ledCount_paint])
  have hget : ∀ led, (m.display.paint ((List.range n).map color)).flush.get? led =
      if led < n then some (color led) else m.display.get? led :=
    Display.get?_paint_range (h.leds.symm ▸ hn) color
  constructor
  case wired => exact hwired
  case map => rfl
  case painted =>
    intro led hled
    rw [hdisplay, hget, if_pos (List.mem_range.mp hled)]
  case kept =>
    intro led hled
    rw [hdisplay, hget, if_neg (mt List.mem_range.mpr hled)]

end Machine

/-! ## 3. Boards at work -/

namespace Appliance

/-- Whatever happens keeps the settings of a board and the map of its machine. -/
theorem map_happen (a : Appliance) (happening : Happening) :
    (a.happen happening).settings = a.settings ∧
      (a.happen happening).machine.map = a.machine.map := by
  cases happening with
  | cycle => exact ⟨rfl, rfl⟩
  | message bytes =>
    simp only [happen, dispatch]
    cases a.board.dispatch a.site.store bytes <;> exact ⟨rfl, rfl⟩

theorem map_live (a : Appliance) (happenings : List Happening) :
    (a.live happenings).settings = a.settings ∧
      (a.live happenings).machine.map = a.machine.map := by
  induction happenings generalizing a with
  | nil => exact ⟨rfl, rfl⟩
  | cons happening rest ih =>
    have hfirst := a.map_happen happening
    have hrest := ih (a.happen happening)
    exact ⟨hrest.1.trans hfirst.1, hrest.2.trans hfirst.2⟩

theorem map_start (settings : Settings) (network : Network) (noise : Noise) (files : FileTree) :
    (start settings network noise files).1.machine.map = settings.map := by
  change (Boot.loadRam (Boot.machine settings noise) files settings.defaultProgram
    ⟨settings.programStore⟩).machine.map = settings.map
  rcases Boot.machine_loadRam (Boot.machine settings noise) files settings.defaultProgram
    ⟨settings.programStore⟩ with hsame | ⟨program, hprogram⟩
  · rw [hsame]
    rfl
  · rw [hprogram]
    rfl

/-- **The machine of a board at work is wired** by the map in the settings, whatever its processor
and its clients do. -/
theorem wired_live (settings : Settings) (network : Network) (noise : Noise) (files : FileTree)
    (happenings : List Happening) :
    let last := (start settings network noise files).1.live happenings
    last.machine.Wired ∧ last.machine.map = settings.map := by
  intro last
  obtain ⟨hsettings, hmap⟩ := map_live (start settings network noise files).1 happenings
  have hlast : last.machine.map = settings.map :=
    hmap.trans (map_start settings network noise files)
  have hsame : last.machine.map = last.settings.map :=
    hlast.trans (congrArg Settings.map hsettings).symm
  obtain ⟨d, hwired, -⟩ :=
    Bus.shows_iff.mp (fresh_live (fresh_start settings network noise files) happenings)
  change last.machine.bus.Wired last.settings.map d at hwired
  rw [← hsame] at hwired
  exact ⟨(Machine.wired_of_bus hwired).1, hlast⟩

/-! ## 4. The two ways -/

/-- What a message of triples does: it paints as many LEDs as it has triples for, and flushes. -/
theorem dispatch_triples (a : Appliance) (body : List UInt8) :
    let n := min a.machine.display.ledCount (body.length / 3)
    ∃ b, a.dispatch (84 :: body) = .ok (.display n, b) ∧
      b.machine = a.machine.modifyDisplay
        (fun _ => (a.machine.display.paint ((List.range n).map (tripleAt body))).flush) := by
  intro n
  have hcolors : (tripleColors body).take a.machine.display.ledCount =
      (List.range n).map (tripleAt body) := by
    rw [tripleColors_eq, ← List.map_take, List.take_range]
  have hdispatch : a.dispatch (84 :: body) =
      .ok (.display ((tripleColors body).take a.machine.display.ledCount).length,
        a.withBoard ⟨(a.machine.display.paint
          ((tripleColors body).take a.machine.display.ledCount)).flush, a.files⟩) := rfl
  rw [hcolors, List.length_map, List.length_range] at hdispatch
  exact ⟨_, hdispatch, rfl⟩

/-- **The two ways to the display agree.**  Let a map give every LED an address outside of RAM.
Then a message of triples leads to the same frame as words written over the bus to the addresses of
as many LEDs as there are triples for, in any order, whatever the first bytes of the words are.
After the one as after the other

* these addresses read as the colours of the message;
* all other LEDs have the colours that they had. -/
theorem dispatch_agrees_with_writes {a : Appliance} (h : a.machine.Wired)
    {addressOf : Nat → UInt32}
    (hmap : ∀ led < a.machine.map.ledCount,
      a.machine.map.ledAddress? led = some (addressOf led) ∧
        ¬ a.machine.map.InRam (addressOf led))
    (body : List UInt8) (unused : Nat → UInt8) {order : List Nat}
    (horder : order.Perm (List.range (min a.machine.map.ledCount (body.length / 3)))) :
    let n := min a.machine.map.ledCount (body.length / 3)
    let wordOf := fun led : Nat => (⟨unused led, body.getD (3 * led) 0, body.getD (3 * led + 1) 0,
      body.getD (3 * led + 2) 0⟩ : Word)
    let written := a.machine.writeWords addressOf wordOf order
    ∃ b, a.dispatch (84 :: body) = .ok (.display n, b) ∧
      b.machine.display.frame = written.display.frame ∧
      ∀ after ∈ [b.machine, written],
        (∀ led < n, (after.bus.read (addressOf led)).1 =
          ⟨0, body.getD (3 * led) 0, body.getD (3 * led + 1) 0, body.getD (3 * led + 2) 0⟩) ∧
        ∀ led, n ≤ led → after.display.get? led = a.machine.display.get? led := by
  intro n wordOf written
  have hreaches : ∀ led < n, a.machine.map.Reaches led (addressOf led) := by
    intro led hled
    have hexists : led < a.machine.map.ledCount := Nat.lt_of_lt_of_le hled (Nat.min_le_left _ _)
    obtain ⟨haddress, hram⟩ := hmap led hexists
    exact ⟨hexists, hram, AddressMap.ledWord_of_ledAddress? haddress⟩
  have hmem : ∀ led, led ∈ order ↔ led < n := by
    intro led
    rw [horder.mem_iff, List.mem_range]
  obtain ⟨b, hdispatch, hmachine⟩ := dispatch_triples a body
  rw [h.leds] at hdispatch hmachine
  have hpainted : Machine.Recolors (List.range n) (tripleAt body) a.machine b.machine :=
    hmachine ▸ Machine.recolors_paint h (Nat.min_le_left _ _) (tripleAt body)
  have hwritten : Machine.Recolors order (tripleAt body) a.machine written :=
    Machine.recolors_writeWords h wordOf (fun led hled => hreaches led ((hmem led).mp hled))
  refine ⟨b, hdispatch, ?_, ?_⟩
  · refine hpainted.frame_eq hwritten ?_
    intro led
    rw [List.mem_range, hmem]
  · intro after hafter
    obtain ⟨leds, hleds, hrecolors⟩ : ∃ leds, (∀ led, led ∈ leds ↔ led < n) ∧
        Machine.Recolors leds (tripleAt body) a.machine after := by
      rw [List.mem_cons, List.mem_singleton] at hafter
      rcases hafter with rfl | rfl
      · exact ⟨_, fun led => List.mem_range, hpainted⟩
      · exact ⟨_, hmem, hwritten⟩
    constructor
    · intro led hled
      exact hrecolors.read ((hleds led).mpr hled) (hreaches led hled)
    · intro led hled
      exact hrecolors.kept led (mt (hleds led).mp (Nat.not_lt.mpr hled))

/-- A board with two LEDs, whose words lie behind RAM, gets two colours and a byte too many after it
was painted gray. -/
theorem dispatch_agrees_with_writes_of_two_leds :
    let settings : Settings := ⟨.v4 [0, 0, 0, 0] 80, ⟨16, 64, 128, 2⟩, "ram.bin", none,
      "index.html", 1, 1, 1, none, "info"⟩
    let a := (start settings .up (Noise.counting 0 1) FileTree.empty).1.live [.message [77, 5, 6]]
    let addressOf := fun led => if led = 0 then (68 : UInt32) else 72
    let wordOf := fun led => if led = 0 then (⟨9, 1, 2, 3⟩ : Word) else ⟨9, 4, 5, 6⟩
    a.machine.Wired ∧
      (∀ led < a.machine.map.ledCount,
        a.machine.map.ledAddress? led = some (addressOf led) ∧
          ¬ a.machine.map.InRam (addressOf led)) ∧
      [1, 0].Perm (List.range (min a.machine.map.ledCount 2)) ∧
      ∃ b, a.dispatch [84, 1, 2, 3, 4, 5, 6, 7] = .ok (.display 2, b) ∧
        b.machine.display.frame = (a.machine.writeWords addressOf wordOf [1, 0]).display.frame ∧
        (b.machine.bus.read 72).1 = ⟨0, 4, 5, 6⟩ := by
  intro settings a addressOf wordOf
  obtain ⟨hwired, hmap⟩ := wired_live settings .up (Noise.counting 0 1) FileTree.empty
    [.message [77, 5, 6]]
  have hcount : a.machine.map.ledCount = 2 := congrArg AddressMap.ledCount hmap
  have haddresses : ∀ led < a.machine.map.ledCount,
      a.machine.map.ledAddress? led = some (addressOf led) ∧
        ¬ a.machine.map.InRam (addressOf led) := by
    change a.machine.map = settings.map at hmap
    rw [hmap]
    decide
  have horder : [1, 0].Perm (List.range (min a.machine.map.ledCount 2)) := by
    rw [hcount]
    decide
  obtain ⟨b, hdispatch, hframe, hafter⟩ := dispatch_agrees_with_writes hwired haddresses
    [1, 2, 3, 4, 5, 6, 7] (fun _ => 9) horder
  have hread := (hafter b.machine List.mem_cons_self).1 1 (by rw [hcount]; decide)
  rw [hcount] at hdispatch
  exact ⟨hwired, haddresses, horder, b, hdispatch, hframe, hread⟩

end Appliance

end Ledboard
