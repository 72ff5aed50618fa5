/-
# What one message does

A message is a tag and a body, and one message does what its tag says and nothing else
(`does_what_its_tag_says`).  Four tags paint.  They differ in how many LEDs a body is about and in
the colour that it has for each of them, and in nothing else (`Colouring`, `colouring?`); their
strides are a bit, a byte and three bytes.  The display gets the colours that there are LEDs for,
keeps the others, and is flushed once, even where a body has no colour at all (`Board.Painted`).

Two tags change the file of the program store, which may be missing (`ProgramStore.Keeps`), and
leave the display alone (`Board.Saved`).  If that file cannot be opened these two fail, nothing
changes, and no other message takes notice of it.  All remaining messages do nothing.
-/
import Ledboard.Proofs.Files
import Ledboard.Proofs.Painting

namespace Ledboard

/-! ## 1. The colours of a body -/

/-- What a message has colours for: how many of the first LEDs, and a colour for each of them. -/
structure Colouring where
  leds : Nat
  color : Nat → Rgb

/-- The colours of a display command: bits, levels, packed colours or triples, as what the three
channels get. -/
def colouring? : List UInt8 → Option Colouring
  | [] => none
  | tag :: body =>
    match tag.toNat with
    | 66 => some ⟨8 * body.length, fun led =>
        if (body.getD (led / 8) 0).toNat.testBit (led % 8) then ⟨255, 255, 255⟩ else ⟨0, 0, 0⟩⟩
    | 77 => some ⟨body.length, fun led => ⟨body.getD led 0, body.getD led 0, body.getD led 0⟩⟩
    | 67 => some ⟨body.length, fun led =>
        ⟨body.getD led 0 &&& 0x84, (body.getD led 0 &&& 0x52) <<< 1,
          (body.getD led 0 &&& 0x29) <<< 2⟩⟩
    | 84 => some ⟨body.length / 3, fun led =>
        ⟨body.getD (3 * led) 0, body.getD (3 * led + 1) 0, body.getD (3 * led + 2) 0⟩⟩
    | _ => none

/-- The bits of a body by their numbers. -/
theorem bits_eq (body : List UInt8) :
    bits body = (List.range (8 * body.length)).map
      (fun i => (body.getD (i / 8) 0).toNat.testBit (i % 8)) := by
  induction body with
  | nil => rfl
  | cons b rest ih =>
    have hfirst : (List.range 8).map
        (fun i => ((b :: rest).getD (i / 8) 0).toNat.testBit (i % 8)) =
        (List.range 8).map b.toNat.testBit := by
      refine List.map_congr_left ?_
      intro i hi
      have hlt := List.mem_range.mp hi
      rw [Nat.div_eq_of_lt hlt, Nat.mod_eq_of_lt hlt, List.getD_cons_zero]
    have hlater : (List.range (8 * rest.length)).map
        ((fun i => ((b :: rest).getD (i / 8) 0).toNat.testBit (i % 8)) ∘ (8 + ·)) =
        (List.range (8 * rest.length)).map
          (fun i => (rest.getD (i / 8) 0).toNat.testBit (i % 8)) := by
      refine List.map_congr_left ?_
      intro i _
      rw [Function.comp_apply, Nat.add_div_left i (by decide), Nat.add_mod_left,
        List.getD_cons_succ]
    have hcons : bits (b :: rest) = (List.range 8).map b.toNat.testBit ++ bits rest := rfl
    rw [hcons, ih, List.length_cons, Nat.mul_succ, Nat.add_comm (8 * rest.length) 8,
      List.range_add, List.map_append, List.map_map, hfirst, hlater]

/-- The first bytes of a body by their numbers. -/
theorem map_take_eq (body : List UInt8) (n : Nat) (color : UInt8 → Rgb) :
    (body.take n).map color =
      (List.range (min n body.length)).map (fun i => color (body.getD i 0)) := by
  refine List.ext_getElem (by simp) ?_
  intro i hi _
  have hlt : i < body.length := by
    rw [List.length_map, List.length_take] at hi
    omega
  simp [hlt]

/-- **The colours that a command gives to a chain** are as many of its own as there are LEDs. -/
theorem colors?_eq (message : List UInt8) (leds : Nat) :
    (Command.ofMessage message).colors? leds =
      (colouring? message).map (fun c => (List.range (min leds c.leds)).map c.color) := by
  cases message with
  | nil => rfl
  | cons tag body =>
    simp only [Command.ofMessage, Command.ofTag, colouring?]
    split
    case h_1 htag =>
      simp only [htag, Command.colors?, Option.map_some, bits_eq, ← List.map_take,
        List.take_range, List.map_map]
      rfl
    case h_2 htag =>
      simp only [htag, Command.colors?, Option.map_some, map_take_eq]
      rfl
    case h_3 htag =>
      simp only [htag, Command.colors?, Option.map_some, map_take_eq]
      rfl
    case h_4 htag =>
      simp only [htag, Command.colors?, Option.map_some, tripleColors_eq, ← List.map_take,
        List.take_range]
      rfl
    case h_5 htag => simp only [htag, Command.colors?, Option.map_none]
    case h_6 htag => simp only [htag, Command.colors?, Option.map_none]
    case h_7 => simp_all [Command.colors?]

/-! ## 2. The kinds of messages -/

/-- Whether a message empties the store. -/
def isReset : List UInt8 → Bool
  | [] => false
  | tag :: _ => tag.toNat == 117

/-- Whether a message appends to the store. -/
def isAppend : List UInt8 → Bool
  | [] => false
  | tag :: _ => tag.toNat == 85

/-- Whether a message is about the store. -/
def isStoreCommand (message : List UInt8) : Bool := isReset message || isAppend message

theorem isSome_colouring? (message : List UInt8) :
    (colouring? message).isSome = isDisplayCommand message := by
  rw [← isSome_colors? message 0, colors?_eq, Option.isSome_map]

theorem isDisplayCommand_iff {message : List UInt8} :
    isDisplayCommand message = true ↔ ∃ c, colouring? message = some c := by
  rw [← isSome_colouring?, Option.isSome_iff_exists]

theorem isDisplayCommand_eq_false_iff {message : List UInt8} :
    isDisplayCommand message = false ↔ colouring? message = none := by
  rw [← isSome_colouring?, Option.isSome_eq_false_iff, Option.isNone_iff_eq_none]

theorem exists_of_isReset {message : List UInt8} (h : isReset message = true) :
    ∃ body, message = 117 :: body := by
  cases message with
  | nil => exact absurd h (by decide)
  | cons tag body =>
    obtain rfl : tag = 117 := UInt8.toNat_inj.mp (beq_iff_eq.mp h)
    exact ⟨body, rfl⟩

theorem exists_of_isAppend {message : List UInt8} (h : isAppend message = true) :
    ∃ body, message = 85 :: body := by
  cases message with
  | nil => exact absurd h (by decide)
  | cons tag body =>
    obtain rfl : tag = 85 := UInt8.toNat_inj.mp (beq_iff_eq.mp h)
    exact ⟨body, rfl⟩

/-- The remaining messages are no commands. -/
theorem ofMessage_eq_other {message : List UInt8} (hcolors : isDisplayCommand message = false)
    (hstore : isStoreCommand message = false) : Command.ofMessage message = .other := by
  cases message with
  | nil => rfl
  | cons tag body =>
    simp only [Command.ofMessage, Command.ofTag]
    split <;> simp_all [isDisplayCommand, isStoreCommand, isReset, isAppend]

/-! ## 3. What a message leaves -/

namespace Board

/-- The board after a message.  A message that fails leaves the board as it is. -/
def after (board : Board) (store : ProgramStore) (message : List UInt8) : Board :=
  match board.dispatch store message with
  | .ok (_, next) => next
  | .error _ => board

/-- What it means that the first LEDs of a board got colours, that its display was flushed once
and shows that, and that nothing else changed. -/
structure Painted (n : Nat) (color : Nat → Rgb) (before after : Board) : Prop where
  painted : ∀ led < n, after.display.get? led = some (color led)
  kept : ∀ led, n ≤ led → after.display.get? led = before.display.get? led
  count : after.display.ledCount = before.display.ledCount
  flushes : after.display.flushes = before.display.flushes + 1
  shown : after.display.shown = some after.display.frame
  files : after.files = before.files

/-- What it means that certain bytes were written to the store of a board, and that nothing else
changed. -/
structure Saved (store : ProgramStore) (bytes : List UInt8) (before after : Board) : Prop where
  display : after.display = before.display
  wrote : store.Wrote bytes before.files after.files

variable {store : ProgramStore} {board : Board} {message : List UInt8}
  {kept : Option (List UInt8)} {cause : FileError}

/-- A display command never fails. -/
theorem dispatch_of_colouring {c : Colouring} (h : colouring? message = some c) :
    let n := min board.display.ledCount c.leds
    ∃ next, board.dispatch store message = .ok (.display n, next) ∧
      Painted n c.color board next := by
  intro n
  have hcolors : (Command.ofMessage message).colors? board.display.ledCount =
      some ((List.range n).map c.color) := by
    rw [colors?_eq, h, Option.map_some]
  have hget : ∀ led, (board.display.paint ((List.range n).map c.color)).get? led =
      if led < n then some (c.color led) else board.display.get? led :=
    Display.get?_paint_range (Nat.min_le_left _ _) c.color
  refine ⟨⟨(board.display.paint ((List.range n).map c.color)).flush, board.files⟩, ?_, ?_⟩
  · simp only [dispatch, Command.run, hcolors, List.length_map, List.length_range]
  · constructor
    case painted => exact fun led hled => (hget led).trans (if_pos hled)
    case kept => exact fun led hled => (hget led).trans (if_neg (Nat.not_lt.mpr hled))
    case count => exact Display.ledCount_paint _ _
    case flushes => rfl
    case shown => rfl
    case files => rfl

theorem dispatch_reset_eq (board : Board) (store : ProgramStore) (body : List UInt8) :
    board.dispatch store (117 :: body) = (store.truncate board.files).map
      (fun files => (.storeReset, { board with files := files })) := rfl

theorem dispatch_append_eq (board : Board) (store : ProgramStore) (body : List UInt8) :
    board.dispatch store (85 :: body) = (store.append board.files body).map
      (fun files => (.storeAppend body.length, { board with files := files })) := rfl

/-- Whatever stands behind its tag, a message that empties the store empties it. -/
theorem dispatch_reset (h : store.Keeps board.files kept) (body : List UInt8) :
    ∃ next, board.dispatch store (117 :: body) = .ok (.storeReset, next) ∧
      Saved store [] board next := by
  obtain ⟨files, hupdate, hwrote⟩ := ProgramStore.update_of_keeps h (fun _ => .empty)
  refine ⟨{ board with files := files }, ?_, rfl, hwrote⟩
  rw [dispatch_reset_eq, ProgramStore.truncate, hupdate]
  rfl

/-- What is appended stands behind what the store kept, if it kept something. -/
theorem dispatch_append (h : store.Keeps board.files kept) (body : List UInt8) :
    ∃ next, board.dispatch store (85 :: body) = .ok (.storeAppend body.length, next) ∧
      Saved store (kept.getD [] ++ body) board next := by
  obtain ⟨files, hupdate, hwrote⟩ := ProgramStore.update_of_keeps h (·.append body)
  rw [Content.toList_append, Content.toList_ofList] at hwrote
  refine ⟨{ board with files := files }, ?_, rfl, hwrote⟩
  rw [dispatch_append_eq, ProgramStore.append, hupdate]
  rfl

/-- Without its file the store can neither be emptied nor appended to. -/
theorem dispatch_of_unopened (h : board.files.openFile store.path = .error cause)
    (body : List UInt8) :
    board.dispatch store (117 :: body) = .error (store.failure .truncate cause) ∧
      board.dispatch store (85 :: body) = .error (store.failure .append cause) := by
  have hupdate : ∀ change, board.files.update store.path change = .error cause := by
    intro change
    rw [FileTree.update, h]
    rfl
  constructor
  · rw [dispatch_reset_eq, ProgramStore.truncate, hupdate]
    rfl
  · rw [dispatch_append_eq, ProgramStore.append, hupdate]
    rfl

/-- A message that is no command does nothing. -/
theorem dispatch_other (hcolors : isDisplayCommand message = false)
    (hstore : isStoreCommand message = false) :
    board.dispatch store message = .ok (.ignored, board) := by
  rw [dispatch, ofMessage_eq_other hcolors hstore]
  rfl

/-! ## 4. The main statement -/

/-- **A message does what its tag says and nothing else.**  For every board and every store:

* a display command gives as many LEDs as there are, and as it has colours for, their colours, and
  flushes once, whatever becomes of the store;
* a store that can be opened is emptied by one tag and grows by the body behind the other, and
  nothing else changes;
* if it cannot be opened, both fail with the reason and leave the board as it is;
* any other message, the empty one among them, changes nothing, whatever becomes of the store. -/
theorem does_what_its_tag_says (board : Board) (store : ProgramStore) :
    (∀ message c, colouring? message = some c →
      let n := min board.display.ledCount c.leds
      ∃ next, board.dispatch store message = .ok (.display n, next) ∧
        Painted n c.color board next) ∧
    (∀ kept, store.Keeps board.files kept → ∀ body,
      (∃ next, board.dispatch store (117 :: body) = .ok (.storeReset, next) ∧
        Saved store [] board next) ∧
      ∃ next, board.dispatch store (85 :: body) = .ok (.storeAppend body.length, next) ∧
        Saved store (kept.getD [] ++ body) board next) ∧
    (∀ cause, board.files.openFile store.path = .error cause → ∀ body,
      board.dispatch store (117 :: body) = .error (store.failure .truncate cause) ∧
      board.dispatch store (85 :: body) = .error (store.failure .append cause) ∧
      board.after store (117 :: body) = board ∧ board.after store (85 :: body) = board) ∧
    ∀ message, colouring? message = none → message.head? ≠ some 117 → message.head? ≠ some 85 →
      board.dispatch store message = .ok (.ignored, board) := by
  refine ⟨?_, ?_, ?_, ?_⟩
  · intro message c hc n
    exact dispatch_of_colouring hc
  · intro kept hkept body
    exact ⟨dispatch_reset hkept body, dispatch_append hkept body⟩
  · intro cause hcause body
    obtain ⟨hreset, happend⟩ := dispatch_of_unopened hcause body
    exact ⟨hreset, happend, by rw [after, hreset], by rw [after, happend]⟩
  · intro message hnone hreset happend
    refine dispatch_other (isDisplayCommand_eq_false_iff.mpr hnone) ?_
    rw [isStoreCommand, Bool.or_eq_false_iff]
    constructor
    · refine Bool.eq_false_iff.mpr fun his => ?_
      obtain ⟨body, rfl⟩ := exists_of_isReset his
      exact hreset rfl
    · refine Bool.eq_false_iff.mpr fun his => ?_
      obtain ⟨body, rfl⟩ := exists_of_isAppend his
      exact happend rfl

/-- Ten LEDs and a bitmap of two bytes, of which the second is used in part; a byte for a store
that is not there yet; a store that is a directory; and a tag without a meaning. -/
theorem does_what_its_tag_says_of_ten_leds :
    let board : Board := ⟨Display.dark 10, FileTree.empty⟩
    let lit : Rgb := ⟨255, 255, 255⟩
    let dark : Rgb := ⟨0, 0, 0⟩
    (∃ c next, colouring? [66, 0x85, 2] = some c ∧ (List.range 10).map c.color =
        [lit, dark, lit, dark, dark, dark, dark, lit, dark, lit] ∧
      board.dispatch ⟨"ram.bin"⟩ [66, 0x85, 2] = .ok (.display 10, next) ∧
      Painted 10 c.color board next) ∧
    (∃ next, board.dispatch ⟨"ram.bin"⟩ [85, 7] = .ok (.storeAppend 1, next) ∧
      Saved ⟨"ram.bin"⟩ [7] board next) ∧
    board.dispatch ⟨".."⟩ [117] = .error ⟨.truncate, "..", .isADirectory⟩ ∧
    board.dispatch ⟨".."⟩ [90, 1] = .ok (.ignored, board) := by
  intro board lit dark
  have hkeeps : ProgramStore.Keeps ⟨"ram.bin"⟩ board.files none :=
    ⟨["ram.bin"], FileTree.openFile_eq_ok_iff.mp rfl, rfl⟩
  have hopens : board.files.openFile ".." = .error .isADirectory := rfl
  obtain ⟨hcolors, hstore, -, -⟩ := does_what_its_tag_says board ⟨"ram.bin"⟩
  obtain ⟨-, -, hfails, hother⟩ := does_what_its_tag_says board ⟨".."⟩
  obtain ⟨next, hnext, hpainted⟩ := hcolors [66, 0x85, 2] _ rfl
  exact ⟨⟨_, next, rfl, rfl, hnext, hpainted⟩, (hstore none hkeeps [7]).2,
    (hfails _ hopens []).1, hother [90, 1] rfl (by decide) (by decide)⟩

end Board

end Ledboard
