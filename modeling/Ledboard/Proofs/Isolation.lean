/-
# Sessions do not disturb each other

Sessions that share a board take turns in any order.  What comes out is as if the messages had been
carried out one after another, and of each session exactly those count that stand in whole frames
at the start of its stream.

* **History** (`Explained`).  The board is what carrying out the history makes of the first board,
  and each session's part of the history was read off its stream.  A turn keeps this
  (`explained_turn`), so a run does (`explained_run`).
* **Faults** (`Matches`).  Two families of streams that start with the same whole frames make the
  same history on the same board, whatever stands behind the frames: what cannot be read, a message
  that breaks off, or nothing.  Again a turn keeps this (`matches_turn`), so a run does
  (`matches_run`).
* **Alone** (`run_alone`).  A session that has the board for itself does what its message loop does
  when it drains its stream.
-/
import Ledboard.Proofs.MessageLoop
import Ledboard.Proofs.Wire.FrameStream
import Ledboard.Session.Shared

namespace Ledboard

open Session (Carried)

namespace Sessions

variable {ι : Type} [DecidableEq ι] {store : ProgramStore} {s s' : Sessions ι} {i j : ι}
  {message rest : List UInt8}

/-! ## 1. What a turn can do -/

@[simp] theorem loops_setLoop_self (s : Sessions ι) (i : ι) (loop : MessageLoop) :
    (s.setLoop i loop).loops i = loop := if_pos rfl

theorem loops_setLoop_of_ne (hj : j ≠ i) (loop : MessageLoop) :
    (s.setLoop i loop).loops j = s.loops j := if_neg hj

/-- What holds of all message loops, after one of them was changed. -/
theorem forall_setLoop {P : ι → MessageLoop → Prop} {loop : MessageLoop} (hown : P i loop)
    (hothers : ∀ j ≠ i, P j (s.loops j)) (j : ι) : P j ((s.setLoop i loop).loops j) := by
  by_cases hj : j = i
  · subst hj
    rw [loops_setLoop_self]
    exact hown
  · rw [loops_setLoop_of_ne hj]
    exact hothers j hj

/-- A session that has ended takes no turn. -/
theorem turn_of_ended {cause : SessionEnd} (h : (s.loops i).ended = some cause) :
    s.turn store i = (none, s) := by
  rw [turn, h]

/-- A message that is read and carried out. -/
theorem turn_of_took {effect : Effect} {next : Board} (hgoing : (s.loops i).ended = none)
    (hread : Wire.Frame.read (s.loops i).unread = ⟨.ok message, rest⟩)
    (hdispatch : s.board.dispatch store message = .ok (effect, next)) :
    s.turn store i = (some message, { s.setLoop i ⟨rest, none⟩ with board := next }) := by
  simp only [turn, hgoing, Session.turn, hread, hdispatch]

/-- A message that is read, but the store fails. -/
theorem turn_of_failed {cause : StoreError} (hgoing : (s.loops i).ended = none)
    (hread : Wire.Frame.read (s.loops i).unread = ⟨.ok message, rest⟩)
    (hdispatch : s.board.dispatch store message = .error cause) :
    s.turn store i = (none, s.stop i (.store cause)) := by
  simp only [turn, hgoing, Session.turn, hread, hdispatch]

/-- No message can be read. -/
theorem turn_of_refused {fault : Wire.Fault} (hgoing : (s.loops i).ended = none)
    (hread : Wire.Frame.read (s.loops i).unread = ⟨.error fault, rest⟩) :
    s.turn store i = (none, s.stop i (.fault fault)) := by
  simp only [turn, hgoing, Session.turn, hread, Bool.true_or, if_true]

/-- **A turn that carries out no message touches nothing but its own session.** -/
theorem turn_of_none (h : (s.turn store i).1 = none) :
    (s.turn store i).2.board = s.board ∧ ∀ j ≠ i, (s.turn store i).2.loops j = s.loops j := by
  unfold turn at h ⊢
  split
  · exact ⟨rfl, fun j _ => rfl⟩
  · split
    · exact ⟨rfl, fun j _ => rfl⟩
    · exact ⟨rfl, fun j hj => if_neg hj⟩
    · simp_all

/-! ## 2. The history of a run -/

theorem messagesOf_append (i : ι) (history more : List (ι × List UInt8)) :
    messagesOf i (history ++ more) = messagesOf i history ++ messagesOf i more := by
  rw [messagesOf, List.filter_append, List.map_append]
  rfl

theorem messagesOf_own (i : ι) (message : List UInt8) :
    messagesOf i [(i, message)] = [message] := by
  simp [messagesOf]

theorem messagesOf_other (h : j ≠ i) (message : List UInt8) :
    messagesOf j [(i, message)] = [] := by
  simp [messagesOf, Ne.symm h]

/-- What explains where one message loop stands: the board and the stream that it began with, the
history since then, and its own messages in the history. -/
structure LoopExplained (store : ProgramStore) (board : Board) (stream : List UInt8)
    (history : List (ι × List UInt8)) (own : List (List UInt8)) (loop : MessageLoop) : Prop where
  /-- its messages were read off its stream, and the rest is unread -/
  reads : Wire.Frame.Reads stream own loop.unread
  /-- if it ended at a fault, it has no message to read -/
  refused : ∀ fault, loop.ended = some (.fault fault) →
    ∃ rest, Wire.Frame.read loop.unread = ⟨.error fault, rest⟩
  /-- if it ended at the store, the store failed with its next message, on the board that was there
  after some part of the history -/
  failed : ∀ cause, loop.ended = some (.store cause) →
    ∃ message rest past there, Wire.Frame.read loop.unread = ⟨.ok message, rest⟩ ∧
      past <+: history ∧ Carried store board (past.map Prod.snd) there ∧
      there.dispatch store message = .error cause

/-- What explains where sessions stand: their history made the board, and each message loop stands
where its part of the history leaves it. -/
structure Explained (store : ProgramStore) (board : Board) (streams : ι → List UInt8)
    (history : List (ι × List UInt8)) (s : Sessions ι) : Prop where
  carried : Carried store board (history.map Prod.snd) s.board
  loops : ∀ i, LoopExplained store board (streams i) history (messagesOf i history) (s.loops i)

variable {board : Board} {stream : List UInt8} {streams : ι → List UInt8}
  {history : List (ι × List UInt8)} {own : List (List UInt8)} {loop : MessageLoop}

omit [DecidableEq ι] in
/-- A loop that goes on is explained by what it read. -/
theorem loopExplained_of_reads (h : Wire.Frame.Reads stream own rest) :
    LoopExplained store board stream history own ⟨rest, none⟩ where
  reads := h
  refused := fun _ hended => absurd hended (by simp)
  failed := fun _ hended => absurd hended (by simp)

omit [DecidableEq ι] in
/-- A longer history explains a loop as well, if its own messages are the same. -/
theorem LoopExplained.later (h : LoopExplained store board stream history own loop)
    (entry : ι × List UInt8) : LoopExplained store board stream (history ++ [entry]) own loop where
  reads := h.reads
  refused := h.refused
  failed := by
    intro cause hended
    obtain ⟨m, r, past, there, hread, hpast, hthere⟩ := h.failed cause hended
    exact ⟨m, r, past, there, hread, hpast.trans (List.prefix_append _ _), hthere⟩

theorem explained_start (store : ProgramStore) (board : Board) (streams : ι → List UInt8) :
    Explained store board streams [] (start board streams) where
  carried := .nil board
  loops := fun i => loopExplained_of_reads (.nil (streams i))

/-- A message that a session carries out joins the history. -/
theorem explained_took {effect : Effect} {next : Board}
    (h : Explained store board streams history s)
    (hread : Wire.Frame.read (s.loops i).unread = ⟨.ok message, rest⟩)
    (hdispatch : s.board.dispatch store message = .ok (effect, next)) :
    Explained store board streams (history ++ [(i, message)])
      { s.setLoop i ⟨rest, none⟩ with board := next } where
  carried := by
    rw [List.map_append]
    exact h.carried.snoc hdispatch
  loops := by
    refine forall_setLoop (P := fun j => LoopExplained store board (streams j)
      (history ++ [(i, message)]) (messagesOf j (history ++ [(i, message)]))) ?_ ?_
    · rw [messagesOf_append, messagesOf_own]
      exact loopExplained_of_reads ((h.loops i).reads.snoc hread)
    · intro j hj
      rw [messagesOf_append, messagesOf_other hj, List.append_nil]
      exact (h.loops j).later (i, message)

/-- A session that ends adds nothing to the history. -/
theorem explained_stop {cause : SessionEnd} (h : Explained store board streams history s)
    (hloop : LoopExplained store board (streams i) history (messagesOf i history)
      { s.loops i with ended := some cause }) :
    Explained store board streams history (s.stop i cause) where
  carried := h.carried
  loops := forall_setLoop
    (P := fun j => LoopExplained store board (streams j) history (messagesOf j history)) hloop
    (fun j _ => h.loops j)

/-- A fault ends a loop that has no message to read. -/
theorem explained_refused {fault : Wire.Fault} (h : Explained store board streams history s)
    (hread : Wire.Frame.read (s.loops i).unread = ⟨.error fault, rest⟩) :
    Explained store board streams history (s.stop i (.fault fault)) := by
  refine explained_stop h ⟨(h.loops i).reads, ?_, ?_⟩
  · intro other hother
    obtain rfl : fault = other := SessionEnd.fault.inj (Option.some.inj hother)
    exact ⟨rest, hread⟩
  · intro cause hcause
    exact absurd hcause (by simp)

/-- The store ends a loop at a message with which it fails. -/
theorem explained_failed {cause : StoreError} (h : Explained store board streams history s)
    (hread : Wire.Frame.read (s.loops i).unread = ⟨.ok message, rest⟩)
    (hdispatch : s.board.dispatch store message = .error cause) :
    Explained store board streams history (s.stop i (.store cause)) := by
  refine explained_stop h ⟨(h.loops i).reads, ?_, ?_⟩
  · intro fault hfault
    exact absurd hfault (by simp)
  · intro other hother
    obtain rfl : cause = other := SessionEnd.store.inj (Option.some.inj hother)
    exact ⟨message, rest, history, s.board, hread, List.prefix_rfl, h.carried, hdispatch⟩

/-- **A turn extends the history by the message that it carries out**, if any. -/
theorem explained_turn (h : Explained store board streams history s) (i : ι) :
    Explained store board streams
      (history ++ ((s.turn store i).1.map (fun m => (i, m))).toList) (s.turn store i).2 := by
  cases hended : (s.loops i).ended with
  | some cause =>
    rw [turn_of_ended hended]
    simpa using h
  | none =>
    rcases hread : Wire.Frame.read (s.loops i).unread with ⟨fault | message, rest⟩
    · rw [turn_of_refused hended hread]
      simpa using explained_refused h hread
    · cases hdispatch : s.board.dispatch store message with
      | error cause =>
        rw [turn_of_failed hended hread hdispatch]
        simpa using explained_failed h hread hdispatch
      | ok outcome =>
        rw [turn_of_took hended hread hdispatch]
        exact explained_took h hread hdispatch

/-- **The history of a run explains where it ends.** -/
theorem explained_run (h : Explained store board streams history s) (schedule : List ι) :
    Explained store board streams (history ++ (s.run store schedule).1)
      (s.run store schedule).2 := by
  induction schedule generalizing history s with
  | nil => rw [run, List.append_nil]; exact h
  | cons i schedule ih =>
    have hlater := ih (explained_turn h i)
    rw [List.append_assoc] at hlater
    exact hlater

/-! ## 3. What a session contributes -/

/-- What a session that ended has contributed, of the messages in the whole frames of its stream:
all of them, or those in front of one with which the store failed. -/
inductive Contribution (store : ProgramStore) (board : Board) (history : List (ι × List UInt8))
    (i : ι) (frames : List Wire.ClientFrame) : Option SessionEnd → Prop where
  | all {fault : Wire.Fault}
      (hall : messagesOf i history = frames.map Wire.ClientFrame.payload) :
      Contribution store board history i frames (some (.fault fault))
  | cut {taken later : List Wire.ClientFrame} {f : Wire.ClientFrame} {cause : StoreError}
      {past : List (ι × List UInt8)} {there : Board} (hframes : frames = taken ++ f :: later)
      (htaken : messagesOf i history = taken.map Wire.ClientFrame.payload)
      (hpast : past <+: history)
      (hthere : Carried store board (past.map Prod.snd) there)
      (hfailed : there.dispatch store f.payload = .error cause) :
      Contribution store board history i frames (some (.store cause))

/-- **A session that has ended contributed its whole frames**, as far as the store let it. -/
theorem contribution_of_explained (h : Explained store board streams history s)
    (hended : (s.loops i).ended.isSome = true) :
    ∃ frames, Wire.WholeFrames (streams i) frames ∧
      Contribution store board history i frames (s.loops i).ended := by
  obtain ⟨taken, htaken, hstream⟩ := Wire.Frame.reads_iff.mp (h.loops i).reads
  obtain ⟨cause, hcause⟩ := Option.isSome_iff_exists.mp hended
  rw [hstream, hcause]
  cases cause with
  | fault fault =>
    obtain ⟨rest, hread⟩ := (h.loops i).refused fault hcause
    have hnone := Wire.wholeFrames_nil_iff.mpr ⟨fault, rest, hread⟩
    have hwhole := hnone.append taken
    rw [List.append_nil] at hwhole
    exact ⟨taken, hwhole, .all htaken.symm⟩
  | store cause =>
    obtain ⟨message, rest, past, there, hread, hpast, hthere, hfailed⟩ :=
      (h.loops i).failed cause hcause
    obtain ⟨f, rfl, hunread⟩ := Wire.Frame.exists_frame_of_read hread
    obtain ⟨later, hlater⟩ := Wire.exists_wholeFrames rest
    have hwhole := (hlater.cons f).append taken
    rw [hunread]
    exact ⟨taken ++ f :: later, hwhole, .cut rfl htaken.symm hpast hthere hfailed⟩

/-! ## 4. What stands behind the whole frames -/

/-- Message loops that go on alike: with the same whole frames unread, and both ended or neither. -/
structure LoopsMatch (loop loop' : MessageLoop) : Prop where
  frames : ∃ frames, Wire.WholeFrames loop.unread frames ∧ Wire.WholeFrames loop'.unread frames
  ended : loop.ended.isSome = loop'.ended.isSome

/-- Sessions that go on alike, on the same board. -/
structure Matches (s s' : Sessions ι) : Prop where
  board : s.board = s'.board
  loops : ∀ i, LoopsMatch (s.loops i) (s'.loops i)

/-- Changing a message loop on both sides. -/
theorem matches_setLoop (h : Matches s s') (i : ι) {loop loop' : MessageLoop}
    (hloop : LoopsMatch loop loop') (j : ι) :
    LoopsMatch ((s.setLoop i loop).loops j) ((s'.setLoop i loop').loops j) := by
  by_cases hj : j = i
  · subst hj
    rw [loops_setLoop_self, loops_setLoop_self]
    exact hloop
  · rw [loops_setLoop_of_ne hj, loops_setLoop_of_ne hj]
    exact h.loops j

/-- Ending a session on both sides, for whatever causes. -/
theorem matches_stop (h : Matches s s') (i : ι) (cause cause' : SessionEnd) :
    Matches (s.stop i cause) (s'.stop i cause') :=
  ⟨h.board, matches_setLoop h i ⟨(h.loops i).frames, rfl⟩⟩

/-- Carrying out the same message on both sides. -/
theorem matches_took (h : Matches s s') (i : ι) {next : Board} {rest rest' : List UInt8}
    {frames : List Wire.ClientFrame} (hrest : Wire.WholeFrames rest frames)
    (hrest' : Wire.WholeFrames rest' frames) :
    Matches { s.setLoop i ⟨rest, none⟩ with board := next }
      { s'.setLoop i ⟨rest', none⟩ with board := next } :=
  ⟨rfl, matches_setLoop h i ⟨⟨frames, hrest, hrest'⟩, rfl⟩⟩

/-- **A turn cannot tell what stands behind the whole frames.** -/
theorem matches_turn (h : Matches s s') (store : ProgramStore) (i : ι) :
    (s.turn store i).1 = (s'.turn store i).1 ∧ Matches (s.turn store i).2 (s'.turn store i).2 := by
  have hsame := (h.loops i).ended
  cases hended : (s.loops i).ended with
  | some cause =>
    rw [hended] at hsame
    obtain ⟨cause', hended'⟩ := Option.isSome_iff_exists.mp hsame.symm
    rw [turn_of_ended hended, turn_of_ended hended']
    exact ⟨rfl, h⟩
  | none =>
    rw [hended] at hsame
    have hended' : (s'.loops i).ended = none := by
      rw [← Option.not_isSome_iff_eq_none, ← hsame]
      exact Bool.false_ne_true
    obtain ⟨frames, hframes, hframes'⟩ := (h.loops i).frames
    cases frames with
    | nil =>
      obtain ⟨fault, rest, hread⟩ := Wire.wholeFrames_nil_iff.mp hframes
      obtain ⟨fault', rest', hread'⟩ := Wire.wholeFrames_nil_iff.mp hframes'
      rw [turn_of_refused hended hread, turn_of_refused hended' hread']
      exact ⟨rfl, matches_stop h i _ _⟩
    | cons f frames =>
      obtain ⟨rest, hunread, hrest⟩ := hframes.uncons
      obtain ⟨rest', hunread', hrest'⟩ := hframes'.uncons
      have hread : Wire.Frame.read (s.loops i).unread = ⟨.ok f.payload, rest⟩ := by
        rw [hunread, f.read_bytes]
      have hread' : Wire.Frame.read (s'.loops i).unread = ⟨.ok f.payload, rest'⟩ := by
        rw [hunread', f.read_bytes]
      cases hdispatch : s.board.dispatch store f.payload with
      | error cause =>
        have hdispatch' := h.board ▸ hdispatch
        rw [turn_of_failed hended hread hdispatch, turn_of_failed hended' hread' hdispatch']
        exact ⟨rfl, matches_stop h i _ _⟩
      | ok outcome =>
        have hdispatch' := h.board ▸ hdispatch
        rw [turn_of_took hended hread hdispatch, turn_of_took hended' hread' hdispatch']
        exact ⟨rfl, matches_took h i hrest hrest'⟩

/-- **Nor can a run.** -/
theorem matches_run (h : Matches s s') (store : ProgramStore) (schedule : List ι) :
    (s.run store schedule).1 = (s'.run store schedule).1 ∧
      Matches (s.run store schedule).2 (s'.run store schedule).2 := by
  induction schedule generalizing s s' with
  | nil => exact ⟨rfl, h⟩
  | cons i schedule ih =>
    obtain ⟨hmessage, hnext⟩ := matches_turn h store i
    obtain ⟨hhistory, hlast⟩ := ih hnext
    refine ⟨?_, hlast⟩
    simp only [run, hmessage, hhistory]

/-! ## 5. A session by itself -/

/-- Turns of a session that has ended do nothing. -/
theorem run_replicate_of_ended {cause : SessionEnd} (h : (s.loops i).ended = some cause)
    (turns : Nat) : s.run store (List.replicate turns i) = ([], s) := by
  induction turns with
  | zero => rfl
  | succ turns ih => simp only [List.replicate_succ, run, turn_of_ended h, ih]; rfl

/-- **A session that has the board for itself** does what its message loop does when it drains its
stream. -/
theorem run_alone (hgoing : (s.loops i).ended = none) {turns : Nat}
    (hturns : (s.loops i).unread.length < turns) :
    let drained := Session.drain store true s.board (s.loops i).unread
    let last := (s.run store (List.replicate turns i)).2
    last.board = drained.board ∧ (last.loops i).ended = drained.ended := by
  -- Each turn but the last takes at least one byte, so the turns suffice.
  induction turns generalizing s with
  | zero => exact absurd hturns (Nat.not_lt_zero _)
  | succ turns ih =>
    intro drained last
    have hlast : last = ((s.turn store i).2.run store (List.replicate turns i)).2 := rfl
    rcases hread : Wire.Frame.read (s.loops i).unread with ⟨fault | message, rest⟩
    · have hdrained : drained = ⟨s.board, [], some (.fault fault), []⟩ :=
        Session.drain_of_stop
          (by simp only [Session.turn, hread, Bool.true_or, if_true])
      have hended : ((s.stop i (.fault fault)).loops i).ended = some (.fault fault) := by
        rw [stop, loops_setLoop_self]
      rw [hlast, turn_of_refused hgoing hread, run_replicate_of_ended hended, hdrained]
      exact ⟨rfl, hended⟩
    · cases hdispatch : s.board.dispatch store message with
      | error cause =>
        have hdrained : drained = ⟨s.board, [], some (.store cause), []⟩ :=
          Session.drain_of_stop (by simp only [Session.turn, hread, hdispatch])
        have hended : ((s.stop i (.store cause)).loops i).ended = some (.store cause) := by
          rw [stop, loops_setLoop_self]
        rw [hlast, turn_of_failed hgoing hread hdispatch, run_replicate_of_ended hended, hdrained]
        exact ⟨rfl, hended⟩
      | ok outcome =>
        obtain ⟨effect, next⟩ := outcome
        have htook : Session.turn store true s.board (s.loops i).unread =
            .took message effect next rest := by
          simp only [Session.turn, hread, hdispatch]
        have hloop : ({ s.setLoop i ⟨rest, none⟩ with board := next } : Sessions ι).loops i =
            ⟨rest, none⟩ := loops_setLoop_self s i _
        have hshorter : rest.length < turns := by
          have := Wire.Frame.length_rest_read hread
          omega
        have hlater := @ih { s.setLoop i ⟨rest, none⟩ with board := next } (by rw [hloop])
          (by rw [hloop]; exact hshorter)
        rw [hloop] at hlater
        rw [hlast, turn_of_took hgoing hread hdispatch]
        simp only [drained, Session.drain_of_took htook]
        exact hlater

/-! ## 6. Sessions together -/

/-- **Sessions are isolated.**  Whatever the clients send and in whatever order the sessions take
their turns until all have ended:

* the display and the files are what the history makes of them, one message after another;
* each session contributes the messages in the whole frames at the start of its stream, in their
  order, and less only where the store failed with its own next message;
* what stands behind the whole frames makes no difference to history, board and ends;
* a turn that carries out no message leaves the board and all other sessions as they are. -/
theorem sessions_isolated (store : ProgramStore) (board : Board) (streams : ι → List UInt8)
    {schedule : List ι}
    (hend : ∀ i, (((start board streams).run store schedule).2.loops i).ended.isSome = true) :
    let history := ((start board streams).run store schedule).1
    let last := ((start board streams).run store schedule).2
    Carried store board (history.map Prod.snd) last.board ∧
      (∀ i, ∃ frames, Wire.WholeFrames (streams i) frames ∧
        Contribution store board history i frames (last.loops i).ended) ∧
      (∀ others : ι → List UInt8,
        (∀ i, ∃ frames, Wire.WholeFrames (streams i) frames ∧ Wire.WholeFrames (others i) frames) →
        ((start board others).run store schedule).1 = history ∧
          ((start board others).run store schedule).2.board = last.board ∧
          ∀ i, (((start board others).run store schedule).2.loops i).ended.isSome = true) ∧
      ∀ (s : Sessions ι) (i : ι), (s.turn store i).1 = none →
        (s.turn store i).2.board = s.board ∧ ∀ j ≠ i, (s.turn store i).2.loops j = s.loops j := by
  intro history last
  have hexplained : Explained store board streams history last := by
    simpa using explained_run (explained_start store board streams) schedule
  refine ⟨hexplained.carried, ?_, ?_, ?_⟩
  · intro i
    exact contribution_of_explained hexplained (hend i)
  · intro others hothers
    have hstart : Matches (start board streams) (start board others) :=
      ⟨rfl, fun i => ⟨hothers i, rfl⟩⟩
    obtain ⟨hhistory, hlast⟩ := matches_run hstart store schedule
    refine ⟨hhistory.symm, hlast.board.symm, ?_⟩
    intro i
    rw [← (hlast.loops i).ended]
    exact hend i
  · intro s i hnone
    exact turn_of_none hnone

/-- Three sessions that paint.  The first sends a header that no message can have and bytes behind
it.  The second meets a store that cannot be emptied, with another frame behind.  The third closes
its stream. -/
theorem sessions_isolated_of_three :
    let streams : Fin 3 → List UInt8 := fun
      | 0 => [0x82, 0x82, 0, 0, 0, 0, 77, 9] ++ [0x02, 0x82, 77, 9]
      | 1 => [0x81, 0x83, 1, 2, 3, 4, 76, 7, 4] ++ [0x82, 0x81, 0, 0, 0, 0, 117] ++
          [0x82, 0x82, 0, 0, 0, 0, 77, 8]
      | 2 => [0xc2, 0x82, 0, 1, 0, 1, 77, 2]
    let store : ProgramStore := ⟨"."⟩
    let board : Board := ⟨Display.dark 2, .empty⟩
    let history := ((start board streams).run store [1, 0, 2, 0, 2, 1, 1]).1
    let last := ((start board streams).run store [1, 0, 2, 0, 2, 1, 1]).2
    (∀ i, (last.loops i).ended.isSome = true) ∧
      history = [(1, [77, 5, 7]), (0, [77, 9]), (2, [77, 3])] ∧
      Carried store board (history.map Prod.snd) last.board ∧
      ∀ i, ∃ frames, Wire.WholeFrames (streams i) frames ∧
        Contribution store board history i frames (last.loops i).ended := by
  intro streams store board history last
  have hend : ∀ i, (last.loops i).ended.isSome = true := by decide +kernel
  have hhistory : history = [(1, [77, 5, 7]), (0, [77, 9]), (2, [77, 3])] := by decide +kernel
  obtain ⟨hcarried, hcontributions, -, -⟩ := sessions_isolated store board streams hend
  exact ⟨hend, hhistory, hcarried, hcontributions⟩

end Sessions

end Ledboard
