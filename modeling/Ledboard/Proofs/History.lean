/-
# What many messages come to

However many messages were carried out, what is left of them can be read off the list without
carrying anything out (`messages_add_up`).  The store keeps the bodies that were appended since it
was emptied last (`keptAfter`).  A LED has the last of the colours that the messages had for it
(`colorFor?`).  The display was flushed once for each display command.

All of this is by induction on the messages from the back, with one case for each kind of message
(`Board.dispatch_cases`): the last message decides about the LEDs that it has colours for, and about
the whole store if it empties it.

Two consequences are about lists of messages and not about what they come to.  Messages that are no
commands can be left out; and a message about the store changes places with one about the display,
because neither reads what the other changes (`carried_swap`).
-/
import Mathlib.Data.List.DropRight
import Ledboard.Proofs.Commands
import Ledboard.Proofs.MessageLoop

namespace Ledboard

open Session (Carried)

variable {store : ProgramStore} {board next last : Board} {message : List UInt8}
  {effect : Effect}

/-! ## 1. One message -/

/-- The bytes that a message appends to the store. -/
def appendedBytes (message : List UInt8) : List UInt8 :=
  if isAppend message then message.tail else []

/-- What the store keeps after one message. -/
def keptNext (kept : Option (List UInt8)) (message : List UInt8) : Option (List UInt8) :=
  if isReset message then some []
  else if isAppend message then some (kept.getD [] ++ appendedBytes message)
  else kept

/-- A display command is a change of the display, whatever the files are. -/
theorem Board.exists_repaint (h : isDisplayCommand message = true) :
    ∃ (repaint : Display → Display) (effect : Display → Effect), ∀ (board : Board) store,
      board.dispatch store message =
        .ok (effect board.display, { board with display := repaint board.display }) := by
  obtain ⟨c, hc⟩ := isDisplayCommand_iff.mp h
  refine ⟨fun d => (d.paint ((List.range (min d.ledCount c.leds)).map c.color)).flush,
    fun d => .display (min d.ledCount c.leds), ?_⟩
  intro board store
  simp only [dispatch, Command.run, colors?_eq, hc, Option.map_some, List.length_map,
    List.length_range]

/-- A message about the store is a change of the files, whatever the display is. -/
theorem Board.exists_rewrite (h : isStoreCommand message = true) (store : ProgramStore) :
    ∃ (rewrite : FileTree → Except StoreError FileTree) (effect : Effect), ∀ board : Board,
      board.dispatch store message =
        (rewrite board.files).map (fun files => (effect, { board with files := files })) := by
  rcases Bool.or_eq_true_iff.mp h with hreset | happend
  · obtain ⟨body, rfl⟩ := exists_of_isReset hreset
    exact ⟨_, _, fun board => Board.dispatch_reset_eq board store body⟩
  · obtain ⟨body, rfl⟩ := exists_of_isAppend happend
    exact ⟨(store.append · body), _, fun board => Board.dispatch_append_eq board store body⟩

/-- **What a message does that is carried out**, by its kind. -/
theorem Board.dispatch_cases (h : board.dispatch store message = .ok (effect, next)) :
    (∃ c, colouring? message = some c ∧
      Painted (min board.display.ledCount c.leds) c.color board next) ∨
    (isStoreCommand message = true ∧ next.display = board.display) ∨
    (isDisplayCommand message = false ∧ isStoreCommand message = false ∧ next = board) := by
  cases hcolors : colouring? message with
  | some c =>
    obtain ⟨painted, hdispatch, hpainted⟩ := dispatch_of_colouring hcolors
    obtain ⟨-, rfl⟩ := Prod.mk.inj (Except.ok.inj (h.symm.trans hdispatch))
    exact Or.inl ⟨c, rfl, hpainted⟩
  | none =>
    have hdisplay := isDisplayCommand_eq_false_iff.mpr hcolors
    cases hstore : isStoreCommand message with
    | true =>
      obtain ⟨rewrite, effect', hrewrite⟩ := exists_rewrite hstore store
      obtain ⟨files, -, hnext⟩ := map_eq_ok_iff.mp ((hrewrite board).symm.trans h)
      exact Or.inr (Or.inl ⟨rfl, by rw [← (Prod.mk.inj hnext).2]⟩)
    | false =>
      obtain ⟨-, rfl⟩ := Prod.mk.inj (Except.ok.inj (h.symm.trans (dispatch_other hdisplay hstore)))
      exact Or.inr (Or.inr ⟨hdisplay, rfl, rfl⟩)

/-- No message is about both. -/
theorem isStoreCommand_of_isDisplayCommand (h : isDisplayCommand message = true) :
    isStoreCommand message = false := by
  refine Bool.eq_false_iff.mpr fun hstore => ?_
  rcases Bool.or_eq_true_iff.mp hstore with hreset | happend
  · obtain ⟨body, rfl⟩ := exists_of_isReset hreset
    exact absurd h (by simp [isDisplayCommand])
  · obtain ⟨body, rfl⟩ := exists_of_isAppend happend
    exact absurd h (by simp [isDisplayCommand])

theorem keptNext_of_not_isStoreCommand (h : isStoreCommand message = false)
    (kept : Option (List UInt8)) : keptNext kept message = kept := by
  obtain ⟨hreset, happend⟩ := Bool.or_eq_false_iff.mp h
  rw [keptNext, hreset, happend]
  rfl

/-- **A store that keeps something does not fail**, and what it keeps then depends on nothing
else. -/
theorem Board.dispatch_of_keeps {kept : Option (List UInt8)} (h : store.Keeps board.files kept)
    (message : List UInt8) :
    ∃ effect next, board.dispatch store message = .ok (effect, next) ∧
      store.Keeps next.files (keptNext kept message) := by
  by_cases hdisplay : isDisplayCommand message = true
  · obtain ⟨repaint, effect, hrepaint⟩ := exists_repaint hdisplay
    refine ⟨_, _, hrepaint board store, ?_⟩
    rw [keptNext_of_not_isStoreCommand (isStoreCommand_of_isDisplayCommand hdisplay)]
    exact h
  · by_cases hreset : isReset message = true
    · obtain ⟨body, rfl⟩ := exists_of_isReset hreset
      obtain ⟨next, hnext, hsaved⟩ := dispatch_reset h body
      exact ⟨_, next, hnext, ProgramStore.keeps_some_iff.mpr hsaved.wrote.holds⟩
    · by_cases happend : isAppend message = true
      · obtain ⟨body, rfl⟩ := exists_of_isAppend happend
        obtain ⟨next, hnext, hsaved⟩ := dispatch_append h body
        exact ⟨_, next, hnext, ProgramStore.keeps_some_iff.mpr hsaved.wrote.holds⟩
      · rw [Bool.not_eq_true] at hdisplay hreset happend
        have hstore : isStoreCommand message = false := by rw [isStoreCommand, hreset, happend]; rfl
        refine ⟨_, _, dispatch_other hdisplay hstore, ?_⟩
        rw [keptNext_of_not_isStoreCommand hstore]
        exact h

/-! ## 2. Lists of messages -/

theorem carried_append_iff {front back : List (List UInt8)} :
    Carried store board (front ++ back) last ↔
      ∃ middle, Carried store board front middle ∧ Carried store middle back last := by
  constructor
  · intro h
    induction front generalizing board with
    | nil => exact ⟨board, .nil board, h⟩
    | cons message front ih =>
      cases h with
      | cons hdispatch hrest =>
        obtain ⟨middle, hfront, hback⟩ := ih hrest
        exact ⟨middle, .cons hdispatch hfront, hback⟩
  · rintro ⟨middle, hfront, hback⟩
    induction hfront with
    | nil board => exact hback
    | cons hdispatch _ ih => exact .cons hdispatch (ih hback)

theorem carried_singleton_iff :
    Carried store board [message] last ↔
      ∃ effect, board.dispatch store message = .ok (effect, last) := by
  constructor
  · rintro (_ | ⟨hdispatch, hrest⟩)
    cases hrest
    exact ⟨_, hdispatch⟩
  · rintro ⟨effect, hdispatch⟩
    exact .cons hdispatch (.nil last)

/-- The last message of a list. -/
theorem carried_snoc_iff {messages : List (List UInt8)} :
    Carried store board (messages ++ [message]) last ↔
      ∃ middle effect, Carried store board messages middle ∧
        middle.dispatch store message = .ok (effect, last) := by
  simp only [carried_append_iff, carried_singleton_iff, exists_and_left]

/-- A message about the display and one about the store, in either order. -/
theorem carried_pair_swap {paint save : List UInt8} (hpaint : isDisplayCommand paint = true)
    (hsave : isStoreCommand save = true) :
    Carried store board [paint, save] last ↔ Carried store board [save, paint] last := by
  obtain ⟨repaint, effect, hrepaint⟩ := Board.exists_repaint hpaint
  obtain ⟨rewrite, effect', hrewrite⟩ := Board.exists_rewrite hsave store
  have hfirst : Carried store board [paint, save] last ↔
      ∃ files, rewrite board.files = .ok files ∧ ⟨repaint board.display, files⟩ = last := by
    rw [← List.singleton_append, carried_append_iff]
    simp [carried_singleton_iff, hrepaint, hrewrite, map_eq_ok_iff]
  have hsecond : Carried store board [save, paint] last ↔
      ∃ files, rewrite board.files = .ok files ∧ ⟨repaint board.display, files⟩ = last := by
    rw [← List.singleton_append, carried_append_iff]
    simp [carried_singleton_iff, hrepaint, hrewrite, map_eq_ok_iff]
  exact hfirst.trans hsecond.symm

/-- **A message about the display changes places with one about the store.** -/
theorem carried_swap (front back : List (List UInt8)) {paint save : List UInt8}
    (hpaint : isDisplayCommand paint = true) (hsave : isStoreCommand save = true) :
    Carried store board (front ++ paint :: save :: back) last ↔
      Carried store board (front ++ save :: paint :: back) last := by
  have hpair : ∀ first second : List UInt8,
      front ++ first :: second :: back = front ++ ([first, second] ++ back) := fun _ _ => rfl
  simp only [hpair, carried_append_iff, carried_pair_swap hpaint hsave]

/-- Whether a message is a command. -/
def isCommand (message : List UInt8) : Bool := isDisplayCommand message || isStoreCommand message

/-- **Messages that are no commands can be left out.** -/
theorem carried_filter (messages : List (List UInt8)) :
    Carried store board messages last ↔ Carried store board (messages.filter isCommand) last := by
  induction messages generalizing board with
  | nil => rfl
  | cons message rest ih =>
    rw [← List.singleton_append, List.filter_append, carried_append_iff, carried_append_iff]
    simp only [← ih]
    by_cases hcommand : isCommand message = true
    · rw [List.filter_cons_of_pos hcommand]
      rfl
    · obtain ⟨hdisplay, hstore⟩ := Bool.or_eq_false_iff.mp (Bool.not_eq_true _ ▸ hcommand)
      have hnothing : ∀ middle, Carried store board [message] middle ↔
          Carried store board [] middle := by
        intro middle
        rw [carried_singleton_iff, Board.dispatch_other hdisplay hstore]
        constructor
        · rintro ⟨effect, hsame⟩
          obtain ⟨-, rfl⟩ := Prod.mk.inj (Except.ok.inj hsame)
          exact .nil board
        · rintro ⟨⟩
          exact ⟨_, rfl⟩
      simp only [hnothing, List.filter_cons_of_neg hcommand, List.filter_nil]

/-! ## 3. The store -/

/-- What the store keeps after some messages.  It keeps what it kept if none was about the store;
otherwise it has the bodies that were appended since it was emptied last, behind what it had if it
was never emptied. -/
def keptAfter (kept : Option (List UInt8)) (messages : List (List UInt8)) :
    Option (List UInt8) :=
  if messages.any isStoreCommand then
    some ((if messages.any isReset then [] else kept.getD []) ++
      (messages.rtakeWhile (fun message => !isReset message)).flatMap appendedBytes)
  else kept

/-- Nothing is appended where no message is about the store. -/
theorem appendedBytes_eq_nil {messages : List (List UInt8)}
    (h : messages.any isStoreCommand = false) :
    (messages.rtakeWhile (fun message => !isReset message)).flatMap appendedBytes = [] := by
  refine List.flatMap_eq_nil_iff.mpr ?_
  intro message hmem
  have hall := List.any_eq_false.mp h message ((List.rtakeWhile_suffix _ _).mem hmem)
  obtain ⟨-, happend⟩ := Bool.or_eq_false_iff.mp (Bool.not_eq_true _ ▸ hall)
  rw [appendedBytes, happend]
  rfl

theorem keptAfter_snoc (kept : Option (List UInt8)) (messages : List (List UInt8))
    (message : List UInt8) :
    keptAfter kept (messages ++ [message]) = keptNext (keptAfter kept messages) message := by
  unfold keptAfter keptNext
  rw [List.any_append, List.any_append]
  cases hreset : isReset message with
  | true =>
    rw [List.rtakeWhile_concat_neg _ _ _ (by simp [hreset])]
    simp [isStoreCommand, hreset]
  | false =>
    rw [List.rtakeWhile_concat_pos _ _ _ (by simp [hreset]), List.flatMap_append]
    cases happend : isAppend message with
    | true =>
      cases hstore : messages.any isStoreCommand with
      | true => simp [isStoreCommand, hreset, happend, List.append_assoc]
      | false =>
        have hnever : messages.any isReset = false := by
          refine List.any_eq_false.mpr fun m hm his => ?_
          exact List.any_eq_false.mp hstore m hm (Bool.or_eq_true_iff.mpr (Or.inl his))
        rw [hnever, appendedBytes_eq_nil hstore]
        simp [isStoreCommand, hreset, happend]
    | false => simp [isStoreCommand, hreset, happend, appendedBytes]

/-- Any store stays as it is exactly if no message is about it. -/
theorem keptAfter_eq_iff (messages : List (List UInt8)) :
    (∀ kept, keptAfter kept messages = kept) ↔ messages.any isStoreCommand = false := by
  constructor
  · intro hsame
    refine Bool.eq_false_iff.mpr fun hstore => ?_
    have habsent := hsame none
    rw [keptAfter, if_pos hstore] at habsent
    exact absurd habsent (by simp)
  · intro hstore kept
    rw [keptAfter, if_neg (by simp [hstore])]

/-- **What the store keeps after messages that were carried out.** -/
theorem keeps_of_carried {kept : Option (List UInt8)} {messages : List (List UInt8)}
    (h : Carried store board messages last) (hkeeps : store.Keeps board.files kept) :
    store.Keeps last.files (keptAfter kept messages) := by
  induction messages using List.reverseRecOn generalizing last with
  | nil =>
    cases h
    exact hkeeps
  | append_singleton messages message ih =>
    obtain ⟨middle, effect, hmiddle, hdispatch⟩ := carried_snoc_iff.mp h
    obtain ⟨effect', next, hnext, hkept⟩ := Board.dispatch_of_keeps (ih hmiddle) message
    obtain ⟨-, rfl⟩ := Prod.mk.inj (Except.ok.inj (hdispatch.symm.trans hnext))
    rw [keptAfter_snoc]
    exact hkept

/-- Where the store keeps something all messages are carried out. -/
theorem exists_carried {kept : Option (List UInt8)} (h : store.Keeps board.files kept)
    (messages : List (List UInt8)) : ∃ last, Carried store board messages last := by
  induction messages generalizing board kept with
  | nil => exact ⟨board, .nil board⟩
  | cons message messages ih =>
    obtain ⟨effect, next, hnext, hkept⟩ := Board.dispatch_of_keeps h message
    obtain ⟨last, hlast⟩ := ih hkept
    exact ⟨last, .cons hnext hlast⟩

/-! ## 4. The display -/

/-- The colour that a message has for a LED. -/
def colorFor? (led : Nat) (message : List UInt8) : Option Rgb :=
  match colouring? message with
  | some c => if led < c.leds then some (c.color led) else none
  | none => none

/-- What messages make of a display: each LED has the last of the colours that they had for it, or
its own, and there was one flush for each display command. -/
structure Display.PaintedBy (messages : List (List UInt8)) (before after : Display) : Prop where
  count : after.ledCount = before.ledCount
  colors : ∀ led < before.ledCount,
    after.get? led = (messages.filterMap (colorFor? led)).getLast?.or (before.get? led)
  flushes : after.flushes = before.flushes + messages.countP isDisplayCommand

namespace Display.PaintedBy

variable {before middle after : Display} {messages : List (List UInt8)}

/-- One more message that has no colours. -/
theorem snoc_of_same (h : PaintedBy messages before middle)
    (hnone : isDisplayCommand message = false) :
    PaintedBy (messages ++ [message]) before middle := by
  have hcolors := isDisplayCommand_eq_false_iff.mp hnone
  constructor
  case count => exact h.count
  case colors =>
    intro led hled
    rw [h.colors led hled, List.filterMap_append,
      List.filterMap_cons_none (by rw [colorFor?, hcolors]), List.filterMap_nil, List.append_nil]
  case flushes =>
    rw [h.flushes, List.countP_append, List.countP_singleton, hnone]
    rfl

/-- One more message that has colours. -/
theorem snoc_of_painted {c : Colouring} {board next : Board}
    (h : PaintedBy messages before board.display) (hcolors : colouring? message = some c)
    (hpainted : Board.Painted (min board.display.ledCount c.leds) c.color board next) :
    PaintedBy (messages ++ [message]) before next.display := by
  have hcommand := isDisplayCommand_iff.mpr ⟨c, hcolors⟩
  constructor
  case count => exact hpainted.count.trans h.count
  case colors =>
    intro led hled
    rw [List.filterMap_append]
    rw [← h.count] at hled
    by_cases hcovered : led < c.leds
    · have hcolor : colorFor? led message = some (c.color led) := by
        simp only [colorFor?, hcolors, if_pos hcovered]
      rw [hpainted.painted led (by omega), List.filterMap_cons_some hcolor, List.filterMap_nil,
        List.getLast?_concat]
      rfl
    · have hcolor : colorFor? led message = none := by
        simp only [colorFor?, hcolors, if_neg hcovered]
      rw [hpainted.kept led (by omega), List.filterMap_cons_none hcolor, List.filterMap_nil,
        List.append_nil, h.colors led (h.count ▸ hled)]
  case flushes =>
    rw [hpainted.flushes, h.flushes, List.countP_append, List.countP_singleton, hcommand]
    rfl

end Display.PaintedBy

/-- **What messages that were carried out made of the display.** -/
theorem paintedBy_of_carried {messages : List (List UInt8)}
    (h : Carried store board messages last) :
    Display.PaintedBy messages board.display last.display := by
  induction messages using List.reverseRecOn generalizing last with
  | nil =>
    cases h
    exact ⟨rfl, fun _ _ => rfl, rfl⟩
  | append_singleton messages message ih =>
    obtain ⟨middle, effect, hmiddle, hdispatch⟩ := carried_snoc_iff.mp h
    rcases Board.dispatch_cases hdispatch with
      ⟨c, hcolors, hpainted⟩ | ⟨hstore, hsame⟩ | ⟨hdisplay, -, rfl⟩
    · exact (ih hmiddle).snoc_of_painted hcolors hpainted
    · rw [hsame]
      refine (ih hmiddle).snoc_of_same (Bool.eq_false_iff.mpr fun hdisplay => ?_)
      rw [isStoreCommand_of_isDisplayCommand hdisplay] at hstore
      exact absurd hstore (by decide)
    · exact (ih hmiddle).snoc_of_same hdisplay

/-- The files stay as they are while no message is about the store. -/
theorem files_of_carried {messages : List (List UInt8)} (h : Carried store board messages last)
    (hnone : messages.any isStoreCommand = false) : last.files = board.files := by
  induction messages using List.reverseRecOn generalizing last with
  | nil =>
    cases h
    rfl
  | append_singleton messages message ih =>
    obtain ⟨middle, effect, hmiddle, hdispatch⟩ := carried_snoc_iff.mp h
    rw [List.any_append, Bool.or_eq_false_iff] at hnone
    rw [← ih hmiddle hnone.1]
    rcases Board.dispatch_cases hdispatch with ⟨c, -, hpainted⟩ | ⟨hstore, -⟩ | ⟨-, -, rfl⟩
    · exact hpainted.files
    · exact absurd hstore (by simpa using hnone.2)
    · rfl

/-! ## 5. The main statement -/

/-- **What a list of messages comes to**, whatever the board was like before:

* where the store keeps something, all messages are carried out;
* if all are carried out, the store keeps what can be read off the list: the bodies that were
  appended since it was emptied last, behind what it kept if it was never emptied.  No message is
  about the store exactly if any store stays as it is, and then no file changes.  A store that is
  not there is there afterwards exactly if some message is about it;
* each LED has the last of the colours that messages had for it, or the one it had if there was
  none, and the display was flushed once for each display command;
* messages that are no commands can be left out;
* a message about the display changes places with one about the store next to it. -/
theorem messages_add_up (store : ProgramStore) (board : Board) (messages : List (List UInt8)) :
    (∀ kept, store.Keeps board.files kept → ∃ last, Carried store board messages last) ∧
    (∀ last, Carried store board messages last →
      (∀ kept, store.Keeps board.files kept → store.Keeps last.files (keptAfter kept messages)) ∧
      (messages.any isStoreCommand = false → last.files = board.files) ∧
      (store.Keeps board.files none →
        (store.Keeps last.files none ↔ messages.any isStoreCommand = false)) ∧
      Display.PaintedBy messages board.display last.display) ∧
    ((∀ kept, keptAfter kept messages = kept) ↔ messages.any isStoreCommand = false) ∧
    (∀ last, Carried store board messages last ↔
      Carried store board (messages.filter isCommand) last) ∧
    ∀ front paint save back, isDisplayCommand paint = true → isStoreCommand save = true →
      ∀ last, Carried store board (front ++ paint :: save :: back) last ↔
        Carried store board (front ++ save :: paint :: back) last := by
  refine ⟨?_, ?_, ?_, ?_, ?_⟩
  · exact fun kept hkeeps => exists_carried hkeeps messages
  · intro last hlast
    refine ⟨fun kept hkeeps => keeps_of_carried hlast hkeeps, files_of_carried hlast, ?_,
      paintedBy_of_carried hlast⟩
    intro habsent
    have hafter := keeps_of_carried hlast habsent
    constructor
    · intro hstays
      have hnone := ProgramStore.keeps_unique hafter hstays
      refine Bool.eq_false_iff.mpr fun hstore => ?_
      rw [keptAfter, if_pos hstore] at hnone
      exact absurd hnone (by simp)
    · intro hstore
      rw [(keptAfter_eq_iff messages).mpr hstore] at hafter
      exact hafter
  · exact keptAfter_eq_iff messages
  · exact fun last => carried_filter messages
  · exact fun front paint save back hpaint hsave last => carried_swap front back hpaint hsave

/-- Two uploads to a store that is not there yet, of which the second replaces the first, two
commands for two LEDs, of which the second is about one of them, and an empty message. -/
theorem messages_add_up_of_two_uploads :
    let board : Board := ⟨Display.dark 2, FileTree.empty⟩
    let messages : List (List UInt8) :=
      [[85, 1], [117], [77, 5, 6], [85, 2], [], [67, 255], [85, 3, 4]]
    ∃ last, Carried ⟨"ram.bin"⟩ board messages last ∧
      ProgramStore.Keeps ⟨"ram.bin"⟩ last.files (some [2, 3, 4]) ∧
      last.display.get? 0 = some ⟨0x84, 0xa4, 0xa4⟩ ∧ last.display.get? 1 = some (.gray 6) ∧
      last.display.flushes = 2 ∧
      Carried ⟨"ram.bin"⟩ board
        [[85, 1], [117], [77, 5, 6], [85, 2], [67, 255], [85, 3, 4]] last := by
  intro board messages
  have hkeeps : ProgramStore.Keeps ⟨"ram.bin"⟩ board.files none :=
    ⟨["ram.bin"], FileTree.openFile_eq_ok_iff.mp rfl, rfl⟩
  obtain ⟨hexists, hlast, -, hfilter, -⟩ := messages_add_up ⟨"ram.bin"⟩ board messages
  obtain ⟨last, hcarried⟩ := hexists none hkeeps
  obtain ⟨hkept, -, -, hpainted⟩ := hlast last hcarried
  exact ⟨last, hcarried, hkept none hkeeps, hpainted.colors 0 (by decide),
    hpainted.colors 1 (by decide), hpainted.flushes, (hfilter last).mp hcarried⟩

end Ledboard
