/-
# Sessions in time

Time is counted in milliseconds from the start of a session.  The keepalive is due at 0 and at
every multiple of its period, and so is the notifier.  No timer waits for longer than thirty years,
so a longer period counts as that.  What is due at the same instant happens in the order in which
it was set up: the one with the longer period first, and the keepalive first where the periods are
equal or at 0.

Between two instants at which a timer has something to do nothing happens by itself, so time goes
from one of them straight to the next, however long that is.

A client follows a script.  Its first step acts at 1; each step acts at once, and then time moves
on, by what the step says if it waits and by 2 otherwise.  A step is reported just before the next
one acts.
-/
import Ledboard.Session

namespace Ledboard

/-- What a client does. -/
inductive ClientStep where
  | send (bytes : List UInt8)
  /-- close the sending side -/
  | eof
  /-- close the receiving side -/
  | deaf
  | press
  | release
  | wait (time : Nat)
  deriving DecidableEq, Repr

/-- How long time moves after a step. -/
def ClientStep.duration : ClientStep → Nat
  | .wait time => time
  | _ => 2

/-- The periods of a session's timers. -/
structure Periods where
  keepalive : Nat
  notifier : Nat
  deriving DecidableEq, Repr

namespace Periods

/-- The longest time that a timer waits: thirty years of 365 days. -/
def longest : Nat := 30 * 365 * 24 * 60 * 60 * 1000

/-- How long a timer with a given period waits from one time to the next. -/
def pace (period : Nat) : Nat := min period longest

/-- Only the period zero has no pace. -/
theorem pace_pos {period : Nat} (h : 0 < period) : 0 < pace period := by
  unfold pace longest
  omega

/-- The timers that are due at an instant, in their order.  The notifier finds the button as it
is then. -/
def due (p : Periods) (time : Nat) (high : Bool) : List SessionEvent :=
  let ping := if time % pace p.keepalive = 0 then [SessionEvent.ping] else []
  let poll := if time % pace p.notifier = 0 then [SessionEvent.poll high] else []
  if time = 0 ∨ pace p.notifier ≤ pace p.keepalive then ping ++ poll else poll ++ ping

/-- How long it is from an instant to the next at which a timer with a given period is due. -/
def untilDue? (period time : Nat) : Option Nat :=
  if period = 0 then none else some (pace period - time % pace period)

/-- That is a later instant. -/
theorem pos_of_untilDue? {period time gap : Nat} (h : untilDue? period time = some gap) :
    0 < gap := by
  unfold untilDue? at h
  split at h
  · simp at h
  · have := Nat.mod_lt time (pace_pos (Nat.pos_of_ne_zero (by assumption)))
    rw [Option.some.injEq] at h
    omega

/-- The sooner of two delays, where there are any. -/
def sooner : Option Nat → Option Nat → Option Nat
  | some a, some b => some (if a ≤ b then a else b)
  | some a, none => some a
  | none, b => b

/-- It is one of the two. -/
theorem sooner_eq_or (a b : Option Nat) : sooner a b = a ∨ sooner a b = b := by
  cases a <;> cases b <;> simp only [sooner, true_or, or_true]
  split <;> simp

end Periods

/-- A session, the board that it works on, the button and the time. -/
structure Timeline where
  time : Nat
  session : Session
  board : Board
  high : Bool
  endedAt : Option Nat
  /-- the frames that the client received and when, latest first -/
  sent : List (Nat × List UInt8)
  /-- what was reported since the last look, in order -/
  events : List Log.Event

/-- What is seen of a step. -/
structure StepReport where
  time : Nat
  endedAt : Option Nat
  display : Display
  files : FileTree
  events : List Log.Event

namespace Timeline

/-- Lets an event happen now. -/
def happen (t : Timeline) (store : ProgramStore) (event : SessionEvent) : Timeline :=
  let (session, board, output) := t.session.step store t.board event
  { t with
    session := session
    board := board
    endedAt := if session.ended && t.endedAt.isNone then some t.time else t.endedAt
    sent := output.frames.foldl (fun sent frame => (t.time, frame) :: sent) t.sent
    events := t.events ++ output.events }

/-- Lets all timers that are due now fire. -/
def fire (t : Timeline) (periods : Periods) (store : ProgramStore) : Timeline :=
  (periods.due t.time t.high).foldl (fun t event => t.happen store event) t

/-- How long it is until a timer next has something to do, if it ever has. -/
def quiet? (t : Timeline) (periods : Periods) : Option Nat :=
  Periods.sooner
    (if t.session.pings then Periods.untilDue? periods.keepalive t.time else none)
    (if t.session.notices t.high then Periods.untilDue? periods.notifier t.time else none)

/-- No timer has something to do without a delay. -/
theorem pos_of_quiet? {t : Timeline} {periods : Periods} {gap : Nat}
    (h : t.quiet? periods = some gap) : 0 < gap := by
  unfold quiet? at h
  rcases Periods.sooner_eq_or
    (if t.session.pings then Periods.untilDue? periods.keepalive t.time else none)
    (if t.session.notices t.high then Periods.untilDue? periods.notifier t.time else none)
    with heq | heq
  all_goals
    rw [heq] at h
    split at h
    · exact Periods.pos_of_untilDue? h
    · simp at h

/-- Lets time go on, from one instant at which a timer has something to do to the next.  A timer
that is due in between would change nothing. -/
def advance (periods : Periods) (store : ProgramStore) (span : Nat) (t : Timeline) : Timeline :=
  match _h : t.quiet? periods with
  | some gap =>
    if gap ≤ span then
      advance periods store (span - gap) ({ t with time := t.time + gap }.fire periods store)
    else { t with time := t.time + span }
  | none => { t with time := t.time + span }
termination_by span
decreasing_by
  have := pos_of_quiet? (by assumption)
  omega

/-- A new session, up to the instant at which the first step acts. -/
def start (periods : Periods) (store : ProgramStore) (peer : String) (board : Board)
    (high : Bool) : Timeline :=
  let fresh : Timeline :=
    ⟨0, Session.start peer, board, high, none, [], [Session.connected peer]⟩
  advance periods store 1 (fresh.fire periods store)

/-- Lets a step of the client act. -/
def act (t : Timeline) (store : ProgramStore) : ClientStep → Timeline
  | .send bytes => t.happen store (.receive bytes)
  | .eof => t.happen store .inputEnd
  | .deaf => t.happen store .hangUp
  | .press => { t with high := false }
  | .release => { t with high := true }
  | .wait _ => t

/-- What is seen of a step that acted at a given time. -/
def report (t : Timeline) (acted : Nat) : StepReport :=
  ⟨acted, t.endedAt, t.board.display, t.board.files, t.events⟩

/-- Follows a script from now on. -/
def follow (periods : Periods) (store : ProgramStore) :
    Timeline → List ClientStep → List StepReport × Timeline
  | t, [] => ([], t)
  | t, step :: rest =>
    let after := advance periods store step.duration (t.act store step)
    let (reports, last) := follow periods store { after with events := [] } rest
    (after.report t.time :: reports, last)

/-- Whether one byte string comes no later than another in the order of their bytes. -/
def bytesLe : List UInt8 → List UInt8 → Bool
  | [], _ => true
  | _ :: _, [] => false
  | a :: as, b :: bs => if a = b then bytesLe as bs else decide (a < b)

/-- The frames that the client received, by time and then by their bytes. -/
def received (t : Timeline) : List (Nat × List UInt8) :=
  t.sent.mergeSort fun a b =>
    if a.1 = b.1 then bytesLe a.2 b.2 else decide (a.1 < b.1)

end Timeline

end Ledboard
