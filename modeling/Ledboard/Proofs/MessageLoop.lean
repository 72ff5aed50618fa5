/-
# The message loop of a session

The message loop reads what is there, as far as it makes whole messages, and keeps the rest for
later.  How the bytes of a client are cut into pieces, and what the senders of the session do in
between, makes no difference to it.

* **Pieces** (`drain_append`).  Reading bytes in two pieces is reading them at once, because
  neither a message nor a refusal depends on bytes that come later.
* **Runs** (`board_run`).  A session that took in events stands where the loop stands after all
  bytes that were received (`Stands`); each event keeps this (`stands_step`).
* **Messages** (`drain_frames`).  Whole frames are carried out one after another, as long as the
  program store does not fail.
-/
import Ledboard.Proofs.Wire.ClientFrames
import Ledboard.Session

namespace Ledboard.Session

variable {store : ProgramStore} {inputEnded : Bool} {board next last : Board}
  {front rest message : List UInt8} {effect : Effect}

/-! ## 1. Pieces -/

theorem drain_of_wait (h : turn store inputEnded board front = .wait) :
    drain store inputEnded board front = ⟨board, front, none, []⟩ := by
  rw [drain]
  split <;> simp_all

theorem drain_of_stop {cause : SessionEnd} (h : turn store inputEnded board front = .stop cause) :
    drain store inputEnded board front = ⟨board, [], some cause, []⟩ := by
  rw [drain]
  split <;> simp_all

theorem drain_of_took (h : turn store inputEnded board front = .took message effect next rest) :
    drain store inputEnded board front =
      { drain store inputEnded next rest with
        events := commandEvents message effect ++ (drain store inputEnded next rest).events } := by
  rw [drain]
  split <;> simp_all

/-- A message is taken as well when more bytes follow. -/
theorem turn_append_of_took (h : turn store false board front = .took message effect next rest)
    (inputEnded : Bool) (back : List UInt8) :
    turn store inputEnded board (front ++ back) = .took message effect next (rest ++ back) := by
  unfold turn at h
  split at h
  · rename_i payload behind hread
    split at h
    · exact absurd h (by simp)
    · rename_i hdispatch
      simp only [Turn.took.injEq] at h
      obtain ⟨rfl, rfl, rfl, rfl⟩ := h
      simp only [turn, Wire.Frame.read_append_of_ok hread, hdispatch]
  · split at h <;> exact absurd h (by simp)

/-- What ends a session before the end of the stream ends it as well when more bytes follow. -/
theorem turn_append_of_stop {cause : SessionEnd} (h : turn store false board front = .stop cause)
    (inputEnded : Bool) (back : List UInt8) :
    turn store inputEnded board (front ++ back) = .stop cause := by
  unfold turn at h
  split at h
  · rename_i payload behind hread
    split at h
    · rename_i hdispatch
      rw [Turn.stop.injEq] at h
      simp only [turn, Wire.Frame.read_append_of_ok hread, hdispatch, h]
    · exact absurd h (by simp)
  · rename_i fault behind hread
    split at h
    · rename_i hfault
      rw [Bool.false_or] at hfault
      rw [Turn.stop.injEq] at h
      simp only [turn, Wire.Frame.read_append_of_fault hread hfault, hfault, Bool.or_true, if_true,
        h]
    · exact absurd h (by simp)

/-- Reads on from where the loop stands. -/
def Drained.readOn (d : Drained) (store : ProgramStore) (inputEnded : Bool)
    (bytes : List UInt8) : Drained :=
  match d.ended with
  | some _ => d
  | none =>
    let later := drain store inputEnded d.board (d.unread ++ bytes)
    { later with events := d.events ++ later.events }

/-- **Reading in two pieces is reading at once.** -/
theorem drain_append (store : ProgramStore) (inputEnded : Bool) (board : Board)
    (front back : List UInt8) :
    drain store inputEnded board (front ++ back) =
      (drain store false board front).readOn store inputEnded back := by
  -- A turn that takes a message leaves fewer bytes, so the induction is on how many there are.
  induction hlength : front.length using Nat.strongRecOn generalizing board front with
  | ind length ih =>
    cases hturn : turn store false board front with
    | wait => rw [drain_of_wait hturn, Drained.readOn]; rfl
    | stop cause =>
      rw [drain_of_stop hturn, drain_of_stop (turn_append_of_stop hturn inputEnded back)]
      rfl
    | took message effect next rest =>
      have hrest := ih rest.length (hlength ▸ length_rest_turn hturn) next rest rfl
      rw [drain_of_took hturn, drain_of_took (turn_append_of_took hturn inputEnded back), hrest]
      cases hended : (drain store false next rest).ended with
      | some cause => simp only [Drained.readOn, hended]
      | none => simp only [Drained.readOn, hended, List.append_assoc]

/-- Nothing is waited for behind the end of the stream. -/
theorem ended_drain_true (store : ProgramStore) (board : Board) (bytes : List UInt8) :
    (drain store true board bytes).ended.isSome = true := by
  induction hlength : bytes.length using Nat.strongRecOn generalizing board bytes with
  | ind length ih =>
    cases hturn : turn store true board bytes with
    | wait =>
      unfold turn at hturn
      split at hturn
      · split at hturn <;> exact absurd hturn (by simp)
      · exact absurd hturn (by simp)
    | stop cause => rw [drain_of_stop hturn]; rfl
    | took message effect next rest =>
      rw [drain_of_took hturn]
      exact ih rest.length (hlength ▸ length_rest_turn hturn) next rest rfl

/-! ## 2. Runs -/

/-- The bytes that the client sends in an event. -/
def received : SessionEvent → List UInt8
  | .receive bytes => bytes
  | _ => []

/-- A session whose client sends on stands where the message loop stands after some bytes. -/
structure Stands (store : ProgramStore) (first : Board) (bytes : List UInt8) (s : Session)
    (board : Board) : Prop where
  listens : s.inputEnded = false
  board : board = (drain store false first bytes).board
  unread : s.unread = (drain store false first bytes).unread
  ended : s.ended = (drain store false first bytes).ended.isSome

variable {first : Board} {s : Session} {bytes : List UInt8}

theorem stands_start (peer : String) (board : Board) :
    Stands store board [] (start peer) board := by
  have hwait : drain store false board [] = ⟨board, [], none, []⟩ := drain_of_wait rfl
  constructor
  · rfl
  · rw [hwait]
  · rw [hwait]
    rfl
  · rw [hwait]
    rfl

/-- Where a session that goes on stands, reading more bytes is reading all of them. -/
theorem drain_of_stands (h : Stands store first bytes s board) (hs : s.ended = false)
    (inputEnded : Bool) (more : List UInt8) :
    (drain store inputEnded board (s.unread ++ more)).board =
        (drain store inputEnded first (bytes ++ more)).board ∧
      (drain store inputEnded board (s.unread ++ more)).unread =
        (drain store inputEnded first (bytes ++ more)).unread ∧
      (drain store inputEnded board (s.unread ++ more)).ended =
        (drain store inputEnded first (bytes ++ more)).ended := by
  have hgoing : (drain store false first bytes).ended = none := by
    rw [← Option.not_isSome_iff_eq_none, ← h.ended, hs]
    exact Bool.false_ne_true
  rw [drain_append store inputEnded first bytes more, h.board, h.unread, Drained.readOn, hgoing]
  exact ⟨rfl, rfl, rfl⟩

/-- The senders and a client that hangs up do not touch the message loop. -/
theorem step_of_silent {event : SessionEvent} (hreceive : ∀ more, event ≠ .receive more)
    (hend : event ≠ .inputEnd) (s : Session) (store : ProgramStore) (board : Board) :
    (s.step store board event).1.inputEnded = s.inputEnded ∧
      (s.step store board event).1.unread = s.unread ∧
      (s.step store board event).1.ended = s.ended ∧ (s.step store board event).2.1 = board := by
  unfold step
  split
  · exact ⟨rfl, rfl, rfl, rfl⟩
  · cases event with
    | receive more => exact absurd rfl (hreceive more)
    | inputEnd => exact absurd rfl hend
    | hangUp => exact ⟨rfl, rfl, rfl, rfl⟩
    | ping =>
      simp only
      split
      · exact ⟨rfl, rfl, rfl, rfl⟩
      · split <;> exact ⟨rfl, rfl, rfl, rfl⟩
    | poll high =>
      simp only
      split
      · exact ⟨rfl, rfl, rfl, rfl⟩
      · split <;> exact ⟨rfl, rfl, rfl, rfl⟩

/-- **An event leaves a session where the message loop stands**, with the bytes that came. -/
theorem stands_step (h : Stands store first bytes s board) {event : SessionEvent}
    (hevent : event ≠ .inputEnd) :
    Stands store first (bytes ++ received event) (s.step store board event).1
      (s.step store board event).2.1 := by
  by_cases hreceive : ∃ more, event = .receive more
  · obtain ⟨more, rfl⟩ := hreceive
    cases hs : s.ended with
    | true =>
      obtain ⟨cause, hcause⟩ := Option.isSome_iff_exists.mp (h.ended ▸ hs)
      have hover : drain store false first (bytes ++ more) = drain store false first bytes := by
        rw [drain_append, Drained.readOn, hcause]
      simp only [step, hs, if_true, received]
      exact ⟨h.listens, hover ▸ h.board, hover ▸ h.unread, hover ▸ h.ended⟩
    | false =>
      obtain ⟨hboard, hunread, hended⟩ := drain_of_stands h hs false more
      simp only [step, hs, h.listens, readOn, received, Bool.false_eq_true, if_false]
      exact ⟨rfl, hboard, hunread, congrArg Option.isSome hended⟩
  · have hnone : received event = [] := by
      cases event with
      | receive more => exact absurd ⟨more, rfl⟩ hreceive
      | _ => rfl
    obtain ⟨hlistens, hunread, hended, hboard⟩ :=
      step_of_silent (fun more hmore => hreceive ⟨more, hmore⟩) hevent s store board
    rw [hnone, List.append_nil]
    exact ⟨hlistens.trans h.listens, hboard.trans h.board, hunread.trans h.unread,
      hended.trans h.ended⟩

/-- The end of the stream leaves a session ended, with the board that the loop leaves. -/
theorem end_of_stands (h : Stands store first bytes s board) :
    (s.step store board .inputEnd).1.ended = true ∧
      (s.step store board .inputEnd).2.1 = (drain store true first bytes).board := by
  have hwhole : drain store true first bytes =
      (drain store false first bytes).readOn store true [] := by
    rw [← drain_append, List.append_nil]
  cases hs : s.ended with
  | true =>
    obtain ⟨cause, hcause⟩ := Option.isSome_iff_exists.mp (h.ended ▸ hs)
    simp only [step, hs, if_true, true_and]
    rw [hwhole, Drained.readOn, hcause]
    exact h.board
  | false =>
    obtain ⟨hboard, -, hended⟩ := drain_of_stands h hs true []
    simp only [List.append_nil] at hboard hended
    simp only [step, hs, h.listens, readOn, Bool.false_eq_true, if_false]
    exact ⟨hended ▸ ended_drain_true store first bytes, hboard⟩

theorem run_of_stands {events : List SessionEvent} (h : Stands store first bytes s board)
    (hevents : ∀ event ∈ events, event ≠ .inputEnd) :
    (s.run store board (events ++ [.inputEnd])).1.ended = true ∧
      (s.run store board (events ++ [.inputEnd])).2.1 =
        (drain store true first (bytes ++ events.flatMap received)).board := by
  induction events generalizing s board bytes with
  | nil =>
    rw [List.flatMap_nil, List.append_nil]
    exact end_of_stands h
  | cons event rest ih =>
    have hlater := ih (stands_step h (hevents event List.mem_cons_self))
      (fun e he => hevents e (List.mem_cons_of_mem event he))
    rw [List.append_assoc] at hlater
    exact hlater

/-- **A session leaves the board as the message loop does** when it reads all that the client
sends at once.  It does not matter how the bytes come in pieces and what the senders do. -/
theorem board_run {events : List SessionEvent} (hevents : ∀ event ∈ events, event ≠ .inputEnd)
    (peer : String) (store : ProgramStore) (board : Board) :
    ((start peer).run store board (events ++ [.inputEnd])).1.ended = true ∧
      ((start peer).run store board (events ++ [.inputEnd])).2.1 =
        (drain store true board (events.flatMap received)).board :=
  run_of_stands (stands_start peer board) hevents

/-! ## 3. Messages -/

/-- Carrying out messages, one after another, leads from one board to another without a failure. -/
inductive Carried (store : ProgramStore) : Board → List (List UInt8) → Board → Prop where
  | nil (board : Board) : Carried store board [] board
  | cons {board next last : Board} {message : List UInt8} {messages : List (List UInt8)}
      {effect : Effect} (h : board.dispatch store message = .ok (effect, next))
      (hrest : Carried store next messages last) : Carried store board (message :: messages) last

/-- Carrying out one more message. -/
theorem Carried.snoc {messages : List (List UInt8)} (h : Carried store board messages next)
    (hdispatch : next.dispatch store message = .ok (effect, last)) :
    Carried store board (messages ++ [message]) last := by
  induction h with
  | nil board => exact .cons hdispatch (.nil last)
  | cons hfirst _ ih => exact .cons hfirst (ih hdispatch)

/-- **Whole frames are carried out in order**, and the loop goes on behind them. -/
theorem drain_frames {frames : List Wire.ClientFrame}
    (h : Carried store board (frames.map Wire.ClientFrame.payload) last) (inputEnded : Bool)
    (rest : List UInt8) :
    (drain store inputEnded board (frames.flatMap Wire.ClientFrame.bytes ++ rest)).board =
      (drain store inputEnded last rest).board := by
  induction frames generalizing board with
  | nil =>
    cases h with
    | nil => rfl
  | cons f frames ih =>
    cases h with
    | @cons _ next _ _ _ effect hdispatch hcarried =>
      have hturn : turn store inputEnded board
          ((f :: frames).flatMap Wire.ClientFrame.bytes ++ rest) =
          .took f.payload effect next (frames.flatMap Wire.ClientFrame.bytes ++ rest) := by
        rw [List.flatMap_cons, List.append_assoc]
        simp only [turn, Wire.ClientFrame.read_bytes, hdispatch]
      rw [drain_of_took hturn]
      exact ih hcarried

end Ledboard.Session
