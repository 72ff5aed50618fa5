/-
# The frames of the senders

A session has two senders, the keepalive and the notifier, and the message loop runs beside them.
As long as the client receives, what it gets is a merge of keepalives and of reports of the button,
and both depend on the timers alone (`frames_are_merged`).

* **Streams of frames** (`Wire.Carries.unique`).  A stream of frames of the board carries its
  messages in one way only.
* **What the senders say** (`messages`).  A message for every tick of the keepalive and one for
  every change of the level.  Without the keepalives they are the reports of low and high in turn
  (`reports_messages`), and the last one is of the level that was sampled last
  (`lastReported_messages`).
* **Sessions** (`frames_run`).  A session whose client receives (`Heard`) sends just these messages,
  event after event (`heard_step`), as long as it takes events in (`taken`).
-/
import Ledboard.Proofs.Exchange
import Ledboard.Proofs.MessageLoop

namespace Ledboard

/-! ## 1. Streams of frames -/

namespace Wire

/-- The frame of a short message. -/
def frameOf (message : List UInt8) : List UInt8 :=
  0x82 :: UInt8.ofNat message.length :: message

/-- A stream is the frames of some short messages, one behind another. -/
structure Carries (stream : List UInt8) (messages : List (List UInt8)) : Prop where
  short : ∀ message ∈ messages, message.length ≤ 125
  whole : stream = messages.flatMap frameOf

theorem encode_of_short {message : List UInt8} (h : message.length ≤ 125) :
    Frame.encode message = .ok (frameOf message) := by
  rw [Frame.encode, payloadLimit, if_pos h, frameOf]

/-- A frame shows where it ends. -/
theorem eq_of_frameOf_append {a b restA restB : List UInt8} (ha : a.length ≤ 125)
    (hb : b.length ≤ 125) (h : frameOf a ++ restA = frameOf b ++ restB) :
    a = b ∧ restA = restB := by
  simp only [frameOf, List.cons_append, List.cons.injEq, true_and] at h
  obtain ⟨hcode, hbody⟩ := h
  have hlength : a.length = b.length := by
    have hnat := congrArg UInt8.toNat hcode
    rwa [UInt8.toNat_ofNat', UInt8.toNat_ofNat', Nat.mod_eq_of_lt (by omega),
      Nat.mod_eq_of_lt (by omega)] at hnat
  exact List.append_inj hbody hlength

/-- **A stream carries its messages in one way only.** -/
theorem Carries.unique {stream : List UInt8} {messages others : List (List UInt8)}
    (h : Carries stream messages) (hothers : Carries stream others) : others = messages := by
  induction messages generalizing stream others with
  | nil =>
    cases others with
    | nil => rfl
    | cons other others => exact absurd (h.whole.symm.trans hothers.whole) (by simp [frameOf])
  | cons message messages ih =>
    cases others with
    | nil => exact absurd (hothers.whole.symm.trans h.whole) (by simp [frameOf])
    | cons other others =>
      obtain ⟨hshort, hrest⟩ := List.forall_mem_cons.mp h.short
      obtain ⟨hshort', hrest'⟩ := List.forall_mem_cons.mp hothers.short
      have heq := hothers.whole.symm.trans h.whole
      rw [List.flatMap_cons, List.flatMap_cons] at heq
      obtain ⟨rfl, htail⟩ := eq_of_frameOf_append hshort' hshort heq
      rw [ih ⟨hrest, rfl⟩ ⟨hrest', htail.symm⟩]

end Wire

namespace Session

/-! ## 2. What the senders say -/

/-- Whether an event is a timer's. -/
def isTimer : SessionEvent → Bool
  | .ping | .poll _ => true
  | _ => false

/-- The level that an event samples. -/
def level? : SessionEvent → Option Bool
  | .poll high => some high
  | _ => none

/-- The levels that are sampled, in their order. -/
def sampled (events : List SessionEvent) : List Bool := events.filterMap level?

/-- How often the level changes when it starts from a given one. -/
def changes (high : Bool) (levels : List Bool) : Nat :=
  ((high :: levels).zip levels).countP fun pair => pair.1 != pair.2

/-- The messages that are due in an event, when a given level was seen last. -/
def due (last : Bool) : SessionEvent → List (List UInt8)
  | .ping => [keepalive]
  | .poll high => if high = last then [] else [levelReport high]
  | _ => []

/-- The level that was seen last after an event. -/
def seen (last : Bool) (event : SessionEvent) : Bool := (level? event).getD last

/-- The messages that are due in some events. -/
def messages (last : Bool) : List SessionEvent → List (List UInt8)
  | [] => []
  | event :: rest => due last event ++ messages (seen last event) rest

/-- The reports among some messages: all but `^PING$`. -/
def reports (messages : List (List UInt8)) : List (List UInt8) :=
  messages.filter fun message => message != [0x5e, 0x50, 0x49, 0x4e, 0x47, 0x24]

theorem levelReport_ne_keepalive (high : Bool) : levelReport high ≠ keepalive := by
  cases high <;> decide

/-- A level that was seen last is not reported. -/
theorem due_poll_self (last : Bool) : due last (.poll last) = [] := if_pos rfl

/-- Another level is. -/
theorem due_poll_of_ne {last high : Bool} (h : high ≠ last) :
    due last (.poll high) = [levelReport high] := if_neg h

theorem length_due_le {last : Bool} {event : SessionEvent} {message : List UInt8}
    (h : message ∈ due last event) : message.length ≤ 125 := by
  cases event with
  | ping =>
    rw [List.mem_singleton.mp h]
    decide
  | poll high =>
    by_cases hsame : high = last
    · rw [hsame, due_poll_self] at h
      exact absurd h List.not_mem_nil
    · rw [due_poll_of_ne hsame] at h
      rw [List.mem_singleton.mp h]
      change 2 ≤ 125
      decide
  | receive bytes => exact absurd h List.not_mem_nil
  | inputEnd => exact absurd h List.not_mem_nil
  | hangUp => exact absurd h List.not_mem_nil

/-- All messages are short. -/
theorem length_messages_le (last : Bool) (events : List SessionEvent) :
    ∀ message ∈ messages last events, message.length ≤ 125 := by
  induction events generalizing last with
  | nil => exact List.forall_mem_nil _
  | cons event rest ih =>
    intro message hmessage
    rcases List.mem_append.mp hmessage with hdue | hlater
    · exact length_due_le hdue
    · exact ih _ message hlater

/-- An event that is no timer's makes no message due. -/
theorem due_of_not_isTimer {event : SessionEvent} (h : isTimer event = false) (last : Bool) :
    due last event = [] ∧ seen last event = last := by
  cases event with
  | ping => exact absurd h (by decide)
  | poll high => exact absurd h (by simp [isTimer])
  | receive bytes => exact ⟨rfl, rfl⟩
  | inputEnd => exact ⟨rfl, rfl⟩
  | hangUp => exact ⟨rfl, rfl⟩

/-- **Only the timers make messages due.** -/
theorem messages_filter_isTimer (last : Bool) (events : List SessionEvent) :
    messages last (events.filter isTimer) = messages last events := by
  induction events generalizing last with
  | nil => rfl
  | cons event rest ih =>
    cases htimer : isTimer event with
    | true => rw [List.filter_cons_of_pos htimer, messages, messages, ih]
    | false =>
      obtain ⟨hdue, hseen⟩ := due_of_not_isTimer htimer last
      rw [List.filter_cons_of_neg (by rw [htimer]; exact Bool.false_ne_true), ih, messages, hdue,
        hseen, List.nil_append]

/-- Events that come later add messages at the end. -/
theorem begins_messages {front events : List SessionEvent} (h : front <+: events) (last : Bool) :
    messages last front <+: messages last events := by
  obtain ⟨back, rfl⟩ := h
  induction front generalizing last with
  | nil => exact List.nil_prefix
  | cons event rest ih => exact (List.prefix_append_right_inj _).mpr (ih _)

/-- There is a keepalive for every tick. -/
theorem count_messages (last : Bool) (events : List SessionEvent) :
    (messages last events).count keepalive = events.count .ping := by
  induction events generalizing last with
  | nil => rfl
  | cons event rest ih =>
    have hdue : (due last event).count keepalive = if event == .ping then 1 else 0 := by
      cases event with
      | ping => rfl
      | poll high =>
        by_cases hsame : high = last
        · rw [hsame, due_poll_self]
          rfl
        · rw [due_poll_of_ne hsame, List.count_singleton,
            beq_eq_false_iff_ne.mpr (levelReport_ne_keepalive high)]
          rfl
      | receive bytes => rfl
      | inputEnd => rfl
      | hangUp => rfl
    rw [messages, List.count_append, ih, hdue, List.count_cons, Nat.add_comm]

/-- Reports of the level in turn, the first of another level than the given one. -/
def inTurn (last : Bool) (count : Nat) : List (List UInt8) :=
  (List.range count).map fun k => levelReport (decide (k % 2 = 1) == last)

theorem inTurn_succ (last : Bool) (count : Nat) :
    inTurn last (count + 1) = levelReport (!last) :: inTurn (!last) count := by
  have hnext (k : Nat) : decide ((k + 1) % 2 = 1) = !decide (k % 2 = 1) := by
    by_cases hk : k % 2 = 1
    · simp only [hk, decide_true, Bool.not_true, decide_eq_false_iff_not]
      omega
    · simp only [hk, decide_false, Bool.not_false, decide_eq_true_eq]
      omega
  simp only [inTurn, List.range_succ_eq_map, List.map_cons, List.map_map, List.cons.injEq]
  constructor
  · cases last <;> rfl
  · apply List.map_congr_left
    intro k _
    simp only [Function.comp_apply, Nat.succ_eq_add_one, hnext]
    cases last <;> cases decide (k % 2 = 1) <;> rfl

theorem changes_cons (last high : Bool) (levels : List Bool) :
    changes last (high :: levels) = changes high levels + if last != high then 1 else 0 := by
  rw [changes, List.zip_cons_cons, List.countP_cons]
  rfl

/-- The reports that are due in one event more. -/
theorem reports_messages_cons (last : Bool) (event : SessionEvent) (rest : List SessionEvent) :
    reports (messages last (event :: rest)) =
      reports (due last event) ++ reports (messages (seen last event) rest) := by
  rw [messages, reports, List.filter_append]
  rfl

/-- A report is no keepalive. -/
theorem reports_due_poll_of_ne {last high : Bool} (h : high ≠ last) :
    reports (due last (.poll high)) = [levelReport high] := by
  rw [due_poll_of_ne h]
  exact List.filter_cons_of_pos (bne_iff_ne.mpr (levelReport_ne_keepalive high))

/-- **The reports are of the other level each time**, and there are as many as there are
changes. -/
theorem reports_messages (last : Bool) (events : List SessionEvent) :
    reports (messages last events) = inTurn last (changes last (sampled events)) := by
  induction events generalizing last with
  | nil => rfl
  | cons event rest ih =>
    rw [reports_messages_cons, ih]
    cases event with
    | poll high =>
      change reports (due last (.poll high)) ++ inTurn high (changes high (sampled rest)) =
        inTurn last (changes last (high :: sampled rest))
      rw [changes_cons]
      by_cases hsame : high = last
      · subst hsame
        rw [due_poll_self, bne_self_eq_false]
        rfl
      · have hother : high = !last := Bool.eq_not.mpr hsame
        rw [reports_due_poll_of_ne hsame, if_pos (bne_iff_ne.mpr (Ne.symm hsame)), inTurn_succ,
          ← hother]
        rfl
    | ping => rfl
    | receive bytes => rfl
    | inputEnd => rfl
    | hangUp => rfl

/-- **The last report is of the level that was sampled last.**  Without any report the level is
still the one at the start. -/
theorem lastReported_messages (last : Bool) (events : List SessionEvent) :
    (reports (messages last events)).getLast?.getD (levelReport last) =
      levelReport ((sampled events).getLast?.getD last) := by
  induction events generalizing last with
  | nil => rfl
  | cons event rest ih =>
    rw [reports_messages_cons]
    cases event with
    | poll high =>
      change (reports (due last (.poll high)) ++ reports (messages high rest)).getLast?.getD _ =
        levelReport ((high :: sampled rest).getLast?.getD last)
      rw [List.getLast?_cons, Option.getD_some, ← ih high]
      by_cases hsame : high = last
      · rw [hsame, due_poll_self]
        rfl
      · rw [reports_due_poll_of_ne hsame, List.getLast?_append]
        cases (reports (messages high rest)).getLast? <;> rfl
    | ping => exact ih last
    | receive bytes => exact ih last
    | inputEnd => exact ih last
    | hangUp => exact ih last

/-- If there is a report, a level was sampled, and the last report is of the last one. -/
theorem sampled_of_getLast? {last : Bool} {events : List SessionEvent} {report : List UInt8}
    (hreport : (reports (messages last events)).getLast? = some report) :
    ∃ high, (sampled events).getLast? = some high ∧ report = levelReport high := by
  have hlast := lastReported_messages last events
  rw [hreport, Option.getD_some] at hlast
  cases hsampled : (sampled events).getLast? with
  | none =>
    have hnone : sampled events = [] := List.getLast?_eq_none_iff.mp hsampled
    rw [reports_messages, hnone] at hreport
    exact absurd hreport.symm (Option.some_ne_none report)
  | some high =>
    rw [hsampled] at hlast
    exact ⟨high, rfl, hlast⟩

/-! ## 3. Sessions -/

/-- The events that a session takes in: those up to its end. -/
def taken (s : Session) (store : ProgramStore) (board : Board) :
    List SessionEvent → List SessionEvent
  | [] => []
  | event :: rest =>
    if s.ended then []
    else
      event :: taken (s.step store board event).1 store (s.step store board event).2.1 rest

/-- A session whose client receives: both senders are on. -/
structure Heard (s : Session) : Prop where
  hears : s.deaf = false
  keepaliveOn : s.keepaliveOn = true
  notifierOn : s.notifierOn = true

theorem heard_start (peer : String) : Heard (start peer) := ⟨rfl, rfl, rfl⟩

variable {s : Session} {event : SessionEvent} {events : List SessionEvent}

theorem begins_taken (s : Session) (store : ProgramStore) (board : Board)
    (events : List SessionEvent) : s.taken store board events <+: events := by
  induction events generalizing s board with
  | nil => exact List.prefix_rfl
  | cons event rest ih =>
    unfold taken
    split
    · exact List.nil_prefix
    · exact List.cons_prefix_cons.mpr ⟨rfl, ih _ _⟩

/-- After its end a session takes in nothing. -/
theorem taken_of_ended (hs : s.ended = true) (store : ProgramStore) (board : Board)
    (events : List SessionEvent) : s.taken store board events = [] := by
  cases events with
  | nil => rfl
  | cons event rest => rw [taken, if_pos hs]

theorem step_of_ended (hs : s.ended = true) (store : ProgramStore) (board : Board)
    (event : SessionEvent) : s.step store board event = (s, board, .none) := by
  unfold step
  rw [if_pos hs]

/-- What the client sends does not touch the senders, and makes them send nothing. -/
theorem step_of_not_isTimer (htimer : isTimer event = false) (hhears : event ≠ .hangUp)
    (s : Session) (store : ProgramStore) (board : Board) :
    (s.step store board event).1.deaf = s.deaf ∧
      (s.step store board event).1.keepaliveOn = s.keepaliveOn ∧
      (s.step store board event).1.notifierOn = s.notifierOn ∧
      (s.step store board event).1.lastHigh = s.lastHigh ∧
      (s.step store board event).2.2.frames = [] := by
  unfold step
  split
  · exact ⟨rfl, rfl, rfl, rfl, rfl⟩
  · cases event with
    | receive bytes => simp only; split <;> exact ⟨rfl, rfl, rfl, rfl, rfl⟩
    | inputEnd => simp only; split <;> exact ⟨rfl, rfl, rfl, rfl, rfl⟩
    | hangUp => exact absurd rfl hhears
    | ping => exact absurd htimer (by decide)
    | poll high => exact absurd htimer (by simp [isTimer])

/-- The frame of a short message is sent. -/
theorem frames_send {message : List UInt8} (h : message.length ≤ 125) :
    (send message).frames = [Wire.frameOf message] := by
  rw [send, Wire.encode_of_short h]
  rfl

/-- **An event leaves a session heard**, with the level that was seen last. -/
theorem heard_step (h : Heard s) (hs : s.ended = false) (hhears : event ≠ .hangUp)
    (store : ProgramStore) (board : Board) :
    Heard (s.step store board event).1 ∧
      (s.step store board event).1.lastHigh = seen s.lastHigh event ∧
      (s.step store board event).2.2.frames = (due s.lastHigh event).map Wire.frameOf := by
  cases htimer : isTimer event with
  | false =>
    obtain ⟨hdeaf, hkeepalive, hnotifier, hlast, hframes⟩ :=
      step_of_not_isTimer htimer hhears s store board
    obtain ⟨hdue, hseen⟩ := due_of_not_isTimer htimer s.lastHigh
    rw [hlast, hseen, hframes, hdue]
    exact ⟨⟨hdeaf.trans h.hears, hkeepalive.trans h.keepaliveOn, hnotifier.trans h.notifierOn⟩,
      rfl, rfl⟩
  | true =>
    cases event with
    | ping =>
      have hstep : s.step store board .ping = (s, board, send keepalive) := by
        simp only [step, hs, h.keepaliveOn, h.hears, Bool.not_true, Bool.false_eq_true, if_false]
      rw [hstep]
      exact ⟨h, rfl, frames_send (by decide)⟩
    | poll high =>
      by_cases hsame : high = s.lastHigh
      · have hstep : s.step store board (.poll high) = (s, board, .none) := by
          simp only [step, hs, hsame, beq_self_eq_true, Bool.or_true, if_true, Bool.false_eq_true,
            if_false]
        rw [hstep, hsame, due_poll_self]
        exact ⟨h, rfl, rfl⟩
      · have hstep : s.step store board (.poll high) = ({ s with lastHigh := high }, board,
            (Output.report [edge high]).append (send (levelReport high))) := by
          simp only [step, hs, h.notifierOn, h.hears, beq_eq_false_iff_ne.mpr hsame, Bool.not_true,
            Bool.or_self, Bool.false_eq_true, if_false]
        rw [hstep, due_poll_of_ne hsame]
        have hshort : (levelReport high).length ≤ 125 :=
          length_due_le (due_poll_of_ne hsame ▸ List.mem_singleton_self _)
        exact ⟨⟨h.hears, h.keepaliveOn, h.notifierOn⟩, rfl, frames_send hshort⟩
    | receive bytes => exact absurd htimer (by simp [isTimer])
    | inputEnd => exact absurd htimer (by simp [isTimer])
    | hangUp => exact absurd rfl hhears

theorem run_of_ended (hs : s.ended = true) (store : ProgramStore) (board : Board)
    (events : List SessionEvent) : s.run store board events = (s, board, .none) := by
  induction events with
  | nil => rfl
  | cons event rest ih =>
    simp only [run, step_of_ended hs, ih]
    rfl

/-- A session that goes on has taken in all events. -/
theorem taken_of_going {store : ProgramStore} {board : Board}
    (h : (s.run store board events).1.ended = false) : s.taken store board events = events := by
  induction events generalizing s board with
  | nil => rfl
  | cons event rest ih =>
    cases hs : s.ended with
    | true =>
      rw [run_of_ended hs, hs] at h
      exact absurd h.symm Bool.false_ne_true
    | false =>
      have hlater : taken (s.step store board event).1 store (s.step store board event).2.1 rest =
          rest := ih h
      rw [taken, hs, if_neg Bool.false_ne_true, hlater]

/-- **A session sends the frames of the messages that are due** in the events that it takes in. -/
theorem frames_run (h : Heard s) (hhears : .hangUp ∉ events) (store : ProgramStore)
    (board : Board) :
    (s.run store board events).2.2.frames =
      (messages s.lastHigh (s.taken store board events)).map Wire.frameOf := by
  induction events generalizing s board with
  | nil => rfl
  | cons event rest ih =>
    obtain ⟨hevent, hrest⟩ : ¬ SessionEvent.hangUp = event ∧ .hangUp ∉ rest :=
      not_or.mp (List.mem_cons.not.mp hhears)
    cases hs : s.ended with
    | true =>
      rw [run_of_ended hs, taken_of_ended hs]
      rfl
    | false =>
      obtain ⟨hheard, hlast, hframes⟩ := heard_step h hs (Ne.symm hevent) store board
      have hlater := ih hheard hrest (s.step store board event).2.1
      rw [hlast] at hlater
      rw [taken, hs, if_neg Bool.false_ne_true, messages, List.map_append, ← hlater, ← hframes]
      rfl

/-- What a session sends carries the messages that are due. -/
theorem carries_run (hhears : .hangUp ∉ events) (peer : String) (store : ProgramStore)
    (board : Board) :
    Wire.Carries ((start peer).run store board events).2.2.frames.flatten
      (messages true ((start peer).taken store board events)) := by
  constructor
  · exact length_messages_le _ _
  · rw [frames_run (heard_start peer) hhears]
    exact List.flatMap_def.symm

/-- Without a client that sends, a session goes on. -/
theorem taken_of_timers (hs : s.ended = false) (htimers : ∀ event ∈ events, isTimer event = true)
    (store : ProgramStore) (board : Board) : s.taken store board events = events := by
  induction events generalizing s board with
  | nil => rfl
  | cons event rest ih =>
    obtain ⟨hevent, hrest⟩ := List.forall_mem_cons.mp htimers
    have hended : (s.step store board event).1.ended = s.ended :=
      (step_of_silent (by rintro more rfl; exact absurd hevent (by simp [isTimer]))
        (by rintro rfl; exact absurd hevent (by decide)) s store board).2.2.1
    rw [taken, hs, if_neg Bool.false_ne_true, ih (hended.trans hs) hrest]

/-- **What the senders send is a merge of keepalives and of changes of the level.**  Whatever a
client sends, in whatever pieces, and whenever the timers are due in between: as long as it
receives, what is sent behind the upgrade carries messages, and no others, in which

* there are as many `^PING$` as ticks were taken in before the message loop ended, which are all
  ticks if it goes on;
* all others are reports, a `b` and a level, of low and high in turn from low, and there are as many of them as there
  are changes among the sampled levels, when the level starts high;
* the last report, if there is any, is of the level that was sampled last.

What the client sends has no influence on them: any session that takes in the same timer events
sends the same bytes, and had the client sent nothing, the bytes would only have gone on. -/
theorem frames_are_merged (hhears : .hangUp ∉ events) (peer : String) (store : ProgramStore)
    (board : Board) :
    let past := (start peer).taken store board events
    let bytes := ((start peer).run store board events).2.2.frames.flatten
    (past <+: events ∧ (((start peer).run store board events).1.ended = false → past = events)) ∧
      (∃ messages : List (List UInt8),
        (∀ others, Wire.Carries bytes others ↔ others = messages) ∧
        messages.count [0x5e, 0x50, 0x49, 0x4e, 0x47, 0x24] = past.count .ping ∧
        reports messages = (List.range (changes true (sampled past))).map
          (fun k => [0x62, UInt8.ofNat (k % 2)]) ∧
        ∀ report, (reports messages).getLast? = some report →
          ∃ high, (sampled past).getLast? = some high ∧
            report = [0x62, if high then 1 else 0]) ∧
      (∀ otherPeer otherStore otherBoard (others : List SessionEvent), .hangUp ∉ others →
        ((start otherPeer).taken otherStore otherBoard others).filter isTimer =
          past.filter isTimer →
        ((start otherPeer).run otherStore otherBoard others).2.2.frames.flatten = bytes) ∧
      bytes <+: ((start peer).run store board (events.filter isTimer)).2.2.frames.flatten := by
  intro past bytes
  have hcarries : Wire.Carries bytes (messages true past) :=
    carries_run hhears peer store board
  refine ⟨⟨begins_taken _ store board events, taken_of_going⟩,
    ⟨messages true past, ?_, count_messages true past, ?_, ?_⟩, ?_, ?_⟩
  · intro others
    constructor
    · exact hcarries.unique
    · rintro rfl
      exact hcarries
  · rw [reports_messages, inTurn]
    apply List.map_congr_left
    intro k _
    rcases Nat.mod_two_eq_zero_or_one k with hk | hk <;> rw [hk] <;> rfl
  · exact fun _ hreport => sampled_of_getLast? hreport
  · intro otherPeer otherStore otherBoard others hothers hsame
    rw [(carries_run hothers otherPeer otherStore otherBoard).whole, hcarries.whole,
      ← messages_filter_isTimer, hsame, messages_filter_isTimer]
  · have hsilent : .hangUp ∉ events.filter isTimer := fun hmem => hhears (List.mem_of_mem_filter hmem)
    have htaken : (start peer).taken store board (events.filter isTimer) = events.filter isTimer :=
      taken_of_timers rfl (fun _ hevent => List.of_mem_filter hevent) store board
    rw [hcarries.whole, (carries_run hsilent peer store board).whole, htaken,
      messages_filter_isTimer]
    obtain ⟨later, hlater⟩ := begins_messages (begins_taken (start peer) store board events) true
    rw [← hlater, List.flatMap_append]
    exact List.prefix_append _ _

/-- A button that is pressed and released, with two keepalives in between. -/
theorem frames_are_merged_of_press :
    let events : List SessionEvent :=
      [.ping, .poll true, .poll false, .ping, .poll false, .poll true]
    let bytes : List UInt8 :=
      [0x82, 6, 0x5e, 0x50, 0x49, 0x4e, 0x47, 0x24, 0x82, 2, 0x62, 0,
        0x82, 6, 0x5e, 0x50, 0x49, 0x4e, 0x47, 0x24, 0x82, 2, 0x62, 1]
    .hangUp ∉ events ∧
      ((start "10.0.0.9:80").run ⟨"ram.bin"⟩ ⟨Display.dark 4, FileTree.empty⟩
        events).2.2.frames.flatten = bytes ∧
      ∃ messages : List (List UInt8),
        messages = [[0x5e, 0x50, 0x49, 0x4e, 0x47, 0x24], [0x62, 0],
          [0x5e, 0x50, 0x49, 0x4e, 0x47, 0x24], [0x62, 1]] ∧
        (∀ others, Wire.Carries bytes others ↔ others = messages) ∧
        messages.count [0x5e, 0x50, 0x49, 0x4e, 0x47, 0x24] = 2 ∧
        reports messages = [[0x62, 0], [0x62, 1]] := by
  intro events bytes
  have hhears : .hangUp ∉ events := by decide
  have hbytes : ((start "10.0.0.9:80").run ⟨"ram.bin"⟩ ⟨Display.dark 4, FileTree.empty⟩
      events).2.2.frames.flatten = bytes := by decide +kernel
  obtain ⟨-, ⟨messages, hunique, hcount, hreports, -⟩, -⟩ :=
    frames_are_merged hhears "10.0.0.9:80" ⟨"ram.bin"⟩ ⟨Display.dark 4, FileTree.empty⟩
  rw [hbytes] at hunique
  exact ⟨hhears, hbytes, messages, ((hunique _).mp ⟨by decide, rfl⟩).symm, hunique, hcount,
    hreports⟩

end Session

end Ledboard
