/-
# Exchanges

Every client gets a whole exchange: nothing, or frames behind a response that switches to
messages, or one response with a body.  Which it is depends on the client's request and on the
index page, and the bytes tell it (`exchange_wellFormed`).

* **What is due** (`Due`).  To every request some form is due (`exists_due`), by the method and the
  path that it has (`Fetches`) and by its key.
* **What is sent** (`talk_of_due`).  The bytes are of the form that is due, and only a session
  changes the board.
* **Sessions** (`isBoardFrame_run`).  A session sends nothing but frames, so whatever the client
  does after the upgrade, no other response follows.
-/
import Ledboard.Connection
import Ledboard.Proofs.Wire.ResponseFormat

namespace Ledboard

open Wire (Form Written IsBoardFrame)

/-! ## 1. What a session sends -/

namespace Session

/-- What is encoded is a frame of the board. -/
theorem isBoardFrame_of_encode {payload frame : List UInt8}
    (h : Wire.Frame.encode payload = .ok frame) : IsBoardFrame frame := by
  unfold Wire.Frame.encode at h
  split at h
  · rename_i hlength
    exact ⟨payload, hlength, (Except.ok.inj h).symm⟩
  · exact absurd h (by simp)

theorem isBoardFrame_send (message : List UInt8) :
    ∀ frame ∈ (send message).frames, IsBoardFrame frame := by
  intro frame hframe
  cases hencode : Wire.Frame.encode message with
  | error fault => simp [send, hencode, Except.toOption] at hframe
  | ok bytes =>
    have heq : frame = bytes := by simpa [send, hencode, Except.toOption] using hframe
    exact isBoardFrame_of_encode (heq ▸ hencode)

/-- **An event makes a session send nothing but frames.** -/
theorem isBoardFrame_step (s : Session) (store : ProgramStore) (board : Board)
    (event : SessionEvent) : ∀ frame ∈ (s.step store board event).2.2.frames,
      IsBoardFrame frame := by
  have hnone : ∀ frame ∈ ([] : List (List UInt8)), IsBoardFrame frame :=
    List.forall_mem_nil _
  unfold step
  split
  · exact hnone
  · cases event with
    | receive bytes => simp only; split <;> exact hnone
    | inputEnd => simp only; split <;> exact hnone
    | hangUp => exact hnone
    | ping =>
      simp only
      split
      · exact hnone
      · split
        · exact hnone
        · exact isBoardFrame_send keepalive
    | poll high =>
      simp only
      split
      · exact hnone
      · split
        · exact hnone
        · exact isBoardFrame_send (levelReport high)

/-- **Nor does it send anything else in a run.** -/
theorem isBoardFrame_run (s : Session) (store : ProgramStore) (board : Board)
    (events : List SessionEvent) :
    ∀ frame ∈ (s.run store board events).2.2.frames, IsBoardFrame frame := by
  induction events generalizing s board with
  | nil => exact List.forall_mem_nil _
  | cons event rest ih =>
    intro frame hframe
    rcases List.mem_append.mp hframe with hfirst | hlater
    · exact isBoardFrame_step s store board event frame hfirst
    · exact ih _ _ frame hlater

end Session

/-! ## 2. What is due to a request -/

/-- A request that fetches a path. -/
structure Wire.Request.Fetches (r : Wire.Request) (wanted : String) : Prop where
  method : r.method = "GET"
  path : r.path = wanted

theorem Wire.Request.isGet_iff {r : Wire.Request} {wanted : String} :
    r.isGet wanted = true ↔ r.Fetches wanted := by
  rw [isGet, Bool.and_eq_true, beq_iff_eq, beq_iff_eq]
  exact ⟨fun h => ⟨h.1, h.2⟩, fun h => ⟨h.method, h.path⟩⟩

theorem Wire.Request.isGet_eq_false_iff {r : Wire.Request} {wanted : String} :
    r.isGet wanted = false ↔ ¬ r.Fetches wanted := by
  rw [← isGet_iff, Bool.not_eq_true]

namespace Connection

/-- Why a request is answered with an error, and the reason that its client is given. -/
inductive Fails (site : Site) (files : FileTree) :
    Except Wire.Fault Wire.Request → String → Prop where
  /-- what was sent is no request -/
  | unreadable {fault : Wire.Fault} (h : fault ≠ .closed) :
      Fails site files (.error fault) fault.message
  /-- a session is asked for without a key -/
  | keyless {request : Wire.Request} (hget : request.Fetches "/ws")
      (hkey : request.headers.first? "Sec-WebSocket-Key" = none) :
      Fails site files (.ok request) Wire.Fault.missingKey.message
  /-- the index page is no text, or cannot be read at all -/
  | pageless {request : Wire.Request} {cause : TextError} (hget : request.Fetches "/")
      (hpage : files.readText site.indexPage = .error cause) :
      Fails site files (.ok request) (ProgramError.unreadable site.indexPage cause).message

/-- The form of what a client is due to get, by what was read of its request. -/
inductive Due (site : Site) (files : FileTree) : Except Wire.Fault Wire.Request → Form → Prop where
  /-- a client that went away before its request was complete gets nothing -/
  | silence : Due site files (.error .closed) .nothing
  /-- one that fetches the path of sessions and shows a key gets a session -/
  | session {request : Wire.Request} {key : String} (hget : request.Fetches "/ws")
      (hkey : request.headers.first? "Sec-WebSocket-Key" = some key) :
      Due site files (.ok request) (.session (Wire.acceptKey key))
  /-- one that fetches the index page gets the bytes of its file, if they are a text -/
  | page {request : Wire.Request} {bytes : List UInt8} {text : String}
      (hget : request.Fetches "/") (hfile : files.read site.indexPage = .ok bytes)
      (htext : Text.textOf? bytes = some text) : Due site files (.ok request) (.reply .ok bytes)
  | failure {outcome : Except Wire.Fault Wire.Request} {reason : String}
      (h : Fails site files outcome reason) :
      Due site files outcome (.reply .internalError (Text.bytesOf reason))
  /-- one that wants anything else is told that there is no such thing -/
  | missing {request : Wire.Request} (hsession : ¬ request.Fetches "/ws")
      (hpage : ¬ request.Fetches "/") :
      Due site files (.ok request) (.reply .notFound (Text.bytesOf "Not Found!"))

variable {site : Site} {board : Board} {files : FileTree} {request : List UInt8} {form : Form}

/-- **To every request some form is due.** -/
theorem exists_due (site : Site) (files : FileTree) (outcome : Except Wire.Fault Wire.Request) :
    ∃ form, Due site files outcome form := by
  cases outcome with
  | error fault =>
    by_cases hclosed : fault = .closed
    · subst hclosed
      exact ⟨_, .silence⟩
    · exact ⟨_, .failure (.unreadable hclosed)⟩
  | ok request =>
    by_cases hsession : request.Fetches "/ws"
    · cases hkey : request.headers.first? "Sec-WebSocket-Key" with
      | none => exact ⟨_, .failure (.keyless hsession hkey)⟩
      | some key => exact ⟨_, .session hsession hkey⟩
    · by_cases hpage : request.Fetches "/"
      · cases hfile : files.read site.indexPage with
        | error cause =>
          have htext : files.readText site.indexPage = .error (.file cause) := by
            simp only [FileTree.readText, hfile]
          exact ⟨_, .failure (.pageless hpage htext)⟩
        | ok bytes =>
          cases hbytes : Text.textOf? bytes with
          | none =>
            have htext : files.readText site.indexPage = .error .notText := by
              simp only [FileTree.readText, hfile, hbytes]
            exact ⟨_, .failure (.pageless hpage htext)⟩
          | some text => exact ⟨_, .page hpage hfile hbytes⟩
      · exact ⟨_, .missing hsession hpage⟩

/-! ## 3. What is sent -/

/-- A fetch of the index page is no fetch of a session. -/
theorem not_fetches_session_of_page {r : Wire.Request} (h : r.Fetches "/") :
    ¬ r.Fetches "/ws" := fun hsession =>
  absurd (h.path.symm.trans hsession.path) (by decide)

section Answer

variable {r : Wire.Request} {unread : List UInt8} {key : String}

/-- A fetch of a session with a key is upgraded, and the session starts where the request ends. -/
theorem answer_of_session (hread : Wire.Request.read request = ⟨.ok r, unread⟩)
    (hget : r.Fetches "/ws") (hkey : r.headers.first? "Sec-WebSocket-Key" = some key) :
    answer site files request = .upgrade (.switchingProtocols (Wire.acceptKey key)) unread := by
  have hsession : r.isGet sessionPath = true := Wire.Request.isGet_iff.mpr hget
  simp only [answer, hread, hsession, if_true, Wire.Response.upgrade, Wire.keyHeader, hkey]

/-- A fetch of the page is answered with the page, or with the reason why there is none. -/
theorem answer_of_page (hread : Wire.Request.read request = ⟨.ok r, unread⟩)
    (hget : r.Fetches "/") :
    answer site files request = .reply (pageResponse files site.indexPage) := by
  have hsession : r.isGet sessionPath = false :=
    Wire.Request.isGet_eq_false_iff.mpr (not_fetches_session_of_page hget)
  have hpage : r.isGet pagePath = true := Wire.Request.isGet_iff.mpr hget
  simp only [answer, hread, hsession, hpage, if_true, Bool.false_eq_true, if_false]

/-- Any other request is told that there is no such thing. -/
theorem answer_of_missing (hread : Wire.Request.read request = ⟨.ok r, unread⟩)
    (hsession : ¬ r.Fetches "/ws") (hpage : ¬ r.Fetches "/") :
    answer site files request = .reply .notFound := by
  have hnosession : r.isGet sessionPath = false := Wire.Request.isGet_eq_false_iff.mpr hsession
  have hnopage : r.isGet pagePath = false := Wire.Request.isGet_eq_false_iff.mpr hpage
  simp only [answer, hread, hnosession, hnopage, Bool.false_eq_true, if_false]

end Answer

/-- A request that fails is answered with the reason. -/
theorem answer_of_fails {reason : String}
    (h : Fails site files (Wire.Request.read request).outcome reason) :
    answer site files request = .reply (.internalError reason) := by
  rcases hread : Wire.Request.read request with ⟨outcome, rest⟩
  rw [hread] at h
  cases h with
  | unreadable hfault => simp only [answer, hread]
  | @keyless r hget hkey =>
    have hsession : r.isGet sessionPath = true := Wire.Request.isGet_iff.mpr hget
    simp only [answer, hread, hsession, if_true, Wire.Response.upgrade, Wire.keyHeader, hkey]
  | pageless hget hpage => rw [answer_of_page hread hget, pageResponse, hpage]

/-- One response is all that is sent, and nothing changes. -/
theorem talk_of_reply {response : Wire.Response}
    (h : answer site board.files request = .reply response) (peer : String)
    (conversation : List UInt8 → List SessionEvent) :
    (talk site peer board request conversation).bytes = response.bytes ∧
      (talk site peer board request conversation).board = board := by
  simp only [talk, h, Exchange.bytes, Option.map_some, Option.getD_some, List.flatten_nil,
    List.append_nil, and_self]

/-- **What is sent has the form that is due, and only a session changes the board.** -/
theorem talk_of_due (h : Due site board.files (Wire.Request.read request).outcome form)
    (peer : String) (conversation : List UInt8 → List SessionEvent) :
    Written form (talk site peer board request conversation).bytes ∧
      ((∃ accept, form = .session accept) ∨
        (talk site peer board request conversation).board = board) := by
  rcases hread : Wire.Request.read request with ⟨outcome, rest⟩
  rw [hread] at h
  cases h with
  | silence =>
    have hanswer : answer site board.files request = .silence := by rw [answer, hread]
    simp only [talk, hanswer, Exchange.bytes]
    exact ⟨.nothing, Or.inr trivial⟩
  | @session r key hget hkey =>
    have hanswer : answer site board.files request =
        .upgrade (.switchingProtocols (Wire.acceptKey key)) rest :=
      answer_of_session hread hget hkey
    refine ⟨?_, Or.inl ⟨_, rfl⟩⟩
    simp only [talk, hanswer, Exchange.bytes, Option.map_some, Option.getD_some,
      Wire.Response.bytes_switchingProtocols]
    exact .session (Wire.visible_acceptKey key) (Session.isBoardFrame_run _ _ _ _)
  | @page r bytes text hget hfile htext =>
    have hpage : board.files.readText site.indexPage = .ok text := by
      simp only [FileTree.readText, hfile, htext]
    have hanswer : answer site board.files request = .reply (.html text) := by
      rw [answer_of_page hread hget, pageResponse, hpage]
    obtain ⟨hbytes, hboard⟩ := talk_of_reply hanswer peer conversation
    rw [hbytes, ← Text.bytesOf_of_textOf? htext]
    exact ⟨Wire.written_withBody .ok text, Or.inr hboard⟩
  | @failure outcome reason hfails =>
    have hanswer : answer site board.files request = .reply (.internalError reason) :=
      answer_of_fails (by rw [hread]; exact hfails)
    obtain ⟨hbytes, hboard⟩ := talk_of_reply hanswer peer conversation
    rw [hbytes]
    exact ⟨Wire.written_withBody .internalError reason, Or.inr hboard⟩
  | @missing r hsession hpage =>
    have hanswer : answer site board.files request = .reply .notFound :=
      answer_of_missing hread hsession hpage
    obtain ⟨hbytes, hboard⟩ := talk_of_reply hanswer peer conversation
    rw [hbytes]
    exact ⟨Wire.written_withBody .notFound "Not Found!", Or.inr hboard⟩

/-- **Every exchange is well formed.**  Whatever a client sends before and after the upgrade, and
whatever the files hold:

* the bytes that it gets are of one form, and of no other;
* that form is the one that is due to its request;
* if they are not those of a session, the display and the files are left as they are. -/
theorem exchange_wellFormed (site : Site) (peer : String) (board : Board) (request : List UInt8)
    (conversation : List UInt8 → List SessionEvent) :
    let exchange := talk site peer board request conversation
    let outcome := (Wire.Request.read request).outcome
    (∃ form, Written form exchange.bytes ∧
        ∀ other, Written other exchange.bytes → other = form) ∧
      (∀ form, Written form exchange.bytes ↔ Due site board.files outcome form) ∧
      ((∀ accept, ¬ Written (.session accept) exchange.bytes) → exchange.board = board) := by
  intro exchange outcome
  obtain ⟨form, hdue⟩ := exists_due site board.files outcome
  obtain ⟨hwritten, hboard⟩ := talk_of_due hdue peer conversation
  refine ⟨⟨form, hwritten, fun other hother => hother.unique hwritten⟩, ?_, ?_⟩
  · intro other
    constructor
    · intro hother
      exact hother.unique hwritten ▸ hdue
    · intro hother
      exact (talk_of_due hother peer conversation).1
  · intro hnone
    rcases hboard with ⟨accept, rfl⟩ | hsame
    · exact absurd hwritten (hnone accept)
    · exact hsame

end Connection

end Ledboard
