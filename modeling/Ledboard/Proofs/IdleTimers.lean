/-
# Idle timers

A board's timers fire in every period, whether or not they have something to do.  A `Timeline` goes
from one instant at which a timer has something to do straight to the next.  This module shows that
nothing is lost: time that goes on at once leaves the same as time that goes on millisecond by
millisecond, with every timer firing whenever it is due (`advance_eq_ticks`), and so a client's
script is seen as if every millisecond had been waited for (`follow_start`).

* **Before the next time** (`Periods.mod_pace_ne_zero`).  A timer is not due before it is due next.
* **Nothing to do** (`happen_of_idle`, `fire_of_quiet`).  A timer that is due in between changes
  neither the session nor the board, and nothing is sent or reported.  Nor is the session's end
  noted then, because it was noted when it came (`Noted`).
-/
import Ledboard.Session.Timeline

namespace Ledboard

/-! ## 1. When a timer is due -/

namespace Periods

variable {p : Periods} {period time k : Nat} {high : Bool} {event : SessionEvent}
  {a b : Option Nat}

/-- What is before the sooner of two delays is before both. -/
theorem lt_of_lt_sooner (h : ∀ gap ∈ sooner a b, k < gap) :
    (∀ gap ∈ a, k < gap) ∧ ∀ gap ∈ b, k < gap := by
  cases a with
  | none => exact ⟨fun _ hgap => absurd hgap (by simp), h⟩
  | some first =>
    cases b with
    | none => exact ⟨h, fun _ hgap => absurd hgap (by simp)⟩
    | some second =>
      have hboth : k < if first ≤ second then first else second := h _ rfl
      simp only [Option.mem_def, Option.some.injEq, forall_eq']
      split at hboth <;> omega

/-- **Before a timer is due next, it is not due.** -/
theorem mod_pace_ne_zero (hk : 0 < k) (h : ∀ gap ∈ untilDue? period time, k < gap) :
    (time + k) % pace period ≠ 0 := by
  rcases Nat.eq_zero_or_pos period with rfl | hperiod
  · have hpace : pace 0 = 0 := Nat.zero_min _
    rw [hpace, Nat.mod_zero]
    omega
  · have hgap : k < pace period - time % pace period :=
      h _ (if_neg (Nat.pos_iff_ne_zero.mp hperiod))
    rw [← Nat.mod_add_mod, Nat.mod_eq_of_lt (by omega)]
    omega

/-- A timer that fires is due. -/
theorem due_of_mem (h : event ∈ p.due time high) :
    (event = .ping ∧ time % pace p.keepalive = 0) ∨
      (event = .poll high ∧ time % pace p.notifier = 0) := by
  have hparts :
      event ∈ (if time % pace p.keepalive = 0 then [SessionEvent.ping] else []) ∨
        event ∈ (if time % pace p.notifier = 0 then [SessionEvent.poll high] else []) := by
    simp only [due] at h
    split at h
    · exact List.mem_append.mp h
    · exact (List.mem_append.mp h).symm
  rcases hparts with hping | hpoll
  · split at hping
    · exact Or.inl ⟨List.mem_singleton.mp hping, by assumption⟩
    · exact absurd hping List.not_mem_nil
  · split at hpoll
    · exact Or.inr ⟨List.mem_singleton.mp hpoll, by assumption⟩
    · exact absurd hpoll List.not_mem_nil

end Periods

namespace Timeline

variable {t : Timeline} {periods : Periods} {store : ProgramStore} {event : SessionEvent}
  {peer : String} {board : Board} {high : Bool} {k span : Nat}

/-! ## 2. The end of a session is noted -/

/-- If the session has ended, it was noted when. -/
def Noted (t : Timeline) : Prop := t.session.ended = true → t.endedAt.isSome = true

/-- Whatever happens, an end is noted. -/
theorem noted_happen (t : Timeline) (store : ProgramStore) (event : SessionEvent) :
    (t.happen store event).Noted := by
  intro hended
  change (t.session.step store t.board event).1.ended = true at hended
  cases hnoted : t.endedAt <;> simp [happen, hended, hnoted]

theorem noted_foldl (h : t.Noted) (events : List SessionEvent) :
    (events.foldl (fun t event => t.happen store event) t).Noted := by
  induction events generalizing t with
  | nil => exact h
  | cons event rest ih => exact ih (noted_happen t store event)

theorem noted_fire (h : t.Noted) : (t.fire periods store).Noted := noted_foldl h _

/-! ## 3. Nothing to do -/

/-- An event that a session does nothing about changes nothing. -/
theorem happen_of_idle (h : t.Noted)
    (hidle : t.session.step store t.board event = (t.session, t.board, .none)) :
    t.happen store event = t := by
  have hnoted : (t.session.ended && t.endedAt.isNone) = false := by
    cases hended : t.session.ended with
    | false => rfl
    | true => rw [Option.isNone_eq_false_iff.mpr (h hended), Bool.and_false]
  simp only [happen, hidle, hnoted, Bool.false_eq_true, if_false, Output.none, List.foldl_nil,
    List.append_nil]

/-- Timers that have nothing to do change nothing. -/
theorem fire_of_idle (h : t.Noted) (hidle : ∀ event ∈ periods.due t.time t.high,
    t.session.step store t.board event = (t.session, t.board, .none)) :
    t.fire periods store = t := by
  unfold fire
  generalize periods.due t.time t.high = events at hidle
  induction events with
  | nil => rfl
  | cons event rest ih =>
    obtain ⟨hevent, hrest⟩ := List.forall_mem_cons.mp hidle
    rw [List.foldl_cons, happen_of_idle h hevent, ih hrest]

/-- **Before a timer next has something to do, the timers change nothing.** -/
theorem fire_of_quiet (h : t.Noted) (hk : 0 < k) (hquiet : ∀ gap ∈ t.quiet? periods, k < gap) :
    { t with time := t.time + k }.fire periods store = { t with time := t.time + k } := by
  obtain ⟨hkeepalive, hnotifier⟩ := Periods.lt_of_lt_sooner hquiet
  refine fire_of_idle h fun event hevent => ?_
  rcases Periods.due_of_mem hevent with ⟨rfl, hdue⟩ | ⟨rfl, hdue⟩
  · refine Session.step_ping_of_not_pings store t.board (Bool.eq_false_iff.mpr fun hpings => ?_)
    rw [if_pos hpings] at hkeepalive
    exact Periods.mod_pace_ne_zero hk hkeepalive hdue
  · refine Session.step_poll_of_not_notices store t.board
      (Bool.eq_false_iff.mpr fun hnotices => ?_)
    rw [if_pos hnotices] at hnotifier
    exact Periods.mod_pace_ne_zero hk hnotifier hdue

/-! ## 4. Millisecond by millisecond -/

/-- Lets a millisecond pass, and then all timers fire that are due. -/
def tick (periods : Periods) (store : ProgramStore) (t : Timeline) : Timeline :=
  { t with time := t.time + 1 }.fire periods store

/-- Lets some milliseconds pass, one by one. -/
def ticks (periods : Periods) (store : ProgramStore) : Nat → Timeline → Timeline
  | 0, t => t
  | n + 1, t => (ticks periods store n t).tick periods store

theorem ticks_add (m n : Nat) (t : Timeline) :
    ticks periods store (m + n) t = ticks periods store n (ticks periods store m t) := by
  induction n with
  | zero => rfl
  | succ n ih => rw [← Nat.add_assoc, ticks, ih, ticks]

/-- While no timer has something to do, only time goes on. -/
theorem ticks_of_quiet (h : t.Noted) (hquiet : ∀ gap ∈ t.quiet? periods, span < gap) :
    ticks periods store span t = { t with time := t.time + span } := by
  induction span with
  | zero => rfl
  | succ n ih =>
    have hlast : { t with time := t.time + (n + 1) }.fire periods store =
        { t with time := t.time + (n + 1) } := fire_of_quiet h (Nat.succ_pos n) hquiet
    rw [ticks, ih fun gap hgap => Nat.lt_of_succ_lt (hquiet gap hgap)]
    exact hlast

/-- **Time that goes on at once leaves what milliseconds leave**, one after another. -/
theorem advance_eq_ticks (h : t.Noted) (span : Nat) :
    advance periods store span t = ticks periods store span t := by
  fun_induction advance periods store span t with
  | case1 span t gap hgap hle ih =>
    -- All of these milliseconds but the last are quiet, and behind the last the timers fire.
    have hgapTicks : ticks periods store gap t =
        { t with time := t.time + gap }.fire periods store := by
      obtain ⟨n, rfl⟩ : ∃ n, gap = n + 1 := Nat.exists_eq_add_one.mpr (pos_of_quiet? hgap)
      have hquiet : ∀ other ∈ t.quiet? periods, n < other := by
        intro other hother
        rw [hgap, Option.mem_some_iff] at hother
        omega
      rw [ticks, ticks_of_quiet h hquiet]
      rfl
    rw [ih (noted_fire h), ← hgapTicks, ← ticks_add, Nat.add_sub_cancel' hle]
  | case2 span t gap hgap hmore =>
    refine (ticks_of_quiet h fun other hother => ?_).symm
    rw [hgap, Option.mem_some_iff] at hother
    omega
  | case3 span t hnever =>
    refine (ticks_of_quiet h fun other hother => ?_).symm
    rw [hnever] at hother
    exact absurd hother (by simp)

theorem noted_ticks (h : t.Noted) (n : Nat) : (ticks periods store n t).Noted := by
  induction n with
  | zero => exact h
  | succ n ih => exact noted_fire (t := { ticks periods store n t with time := _ }) ih

theorem noted_act (h : t.Noted) (step : ClientStep) : (t.act store step).Noted := by
  cases step with
  | send bytes => exact noted_happen t store (.receive bytes)
  | eof => exact noted_happen t store .inputEnd
  | deaf => exact noted_happen t store .hangUp
  | press => exact h
  | release => exact h
  | wait time => exact h

/-- A session before its client acts: its timers fire at 0, and a millisecond passes. -/
def startTick (periods : Periods) (store : ProgramStore) (peer : String) (board : Board)
    (high : Bool) : Timeline :=
  (fire ⟨0, Session.start peer, board, high, none, [], [Session.connected peer]⟩
    periods store).tick periods store

/-- Follows a script millisecond by millisecond. -/
def followTicks (periods : Periods) (store : ProgramStore) :
    Timeline → List ClientStep → List StepReport × Timeline
  | t, [] => ([], t)
  | t, step :: rest =>
    let after := ticks periods store step.duration (t.act store step)
    let (reports, last) := followTicks periods store { after with events := [] } rest
    (after.report t.time :: reports, last)

theorem follow_eq_followTicks (h : t.Noted) (steps : List ClientStep) :
    follow periods store t steps = followTicks periods store t steps := by
  induction steps generalizing t with
  | nil => rfl
  | cons step rest ih =>
    have hact : (t.act store step).Noted := noted_act h step
    have hafter : Noted { ticks periods store step.duration (t.act store step) with events := [] } :=
      noted_ticks (t := t.act store step) hact step.duration
    rw [follow, followTicks, advance_eq_ticks hact, ih hafter]

/-- **A script is seen as if every millisecond had been waited for**, from the start of its session
to its end. -/
theorem follow_start (steps : List ClientStep) :
    follow periods store (start periods store peer board high) steps =
      followTicks periods store (startTick periods store peer board high) steps := by
  have hfresh : Noted ⟨0, Session.start peer, board, high, none, [], [Session.connected peer]⟩ :=
    fun hended => absurd hended Bool.false_ne_true
  have hfired : (fire ⟨0, Session.start peer, board, high, none, [], [Session.connected peer]⟩
      periods store).Noted := noted_fire hfresh
  have hstart : start periods store peer board high = startTick periods store peer board high :=
    advance_eq_ticks hfired 1
  rw [hstart]
  exact follow_eq_followTicks (noted_ticks hfired 1) steps

end Timeline

end Ledboard
