/-
# The form of what a client gets

A client gets nothing, or one response with a body, or one that switches to messages and then
frames.  The bytes alone tell which (`Written.unique`).

* **Heads** (`Head.eq_of_bytes_append`).  A head is lines and an empty line behind them.  Its lines
  are visible text, so they do not break in their middle, and where the head ends does not depend
  on what follows.
* **Responses** (`Response.bytes_withBody`).  A response with a body is a head that says how long
  the body is and that nothing follows it, and the body.
* **Forms** (`Written`).  The bytes of each form, frames included.
-/
import Mathlib.Data.List.Basic
import Ledboard.Proofs.Numerals
import Ledboard.Wire.Frame
import Ledboard.Wire.Request
import Ledboard.Wire.Response

namespace Ledboard.Wire

/-! ## 1. Lines -/

/-- A character that is visible, or a blank. -/
def Visible (c : Char) : Prop := 32 ≤ c.toNat ∧ c.toNat < 127

instance (c : Char) : Decidable (Visible c) := inferInstanceAs (Decidable (_ ∧ _))

/-- A line that a head can have: there is something on it, and all of it is visible. -/
def PlainLine (line : String) : Prop := line ≠ "" ∧ ∀ c ∈ line.toList, Visible c

instance (line : String) : Decidable (PlainLine line) :=
  @instDecidableAnd _ _ inferInstance (List.decidableBAll Visible line.toList)

/-- What ends a line. -/
def lineEnd : List UInt8 := [carriageReturn, lineFeed]

/-- The bytes of some lines and of the empty line behind them. -/
def linesBytes (lines : List String) : List UInt8 :=
  lines.flatMap (fun line => Text.bytesOf line ++ lineEnd) ++ lineEnd

/-- No byte of a line is a control character. -/
theorem PlainLine.notMem {line : String} (h : PlainLine line) {b : UInt8} (hb : b.toNat < 32) :
    b ∉ Text.bytesOf line := by
  intro hmem
  obtain ⟨c, hc, hbyte⟩ := Text.exists_of_mem_bytesOf (by omega) hmem
  have hvisible := (h.2 c hc).1
  omega

theorem PlainLine.bytes_ne_nil {line : String} (h : PlainLine line) : Text.bytesOf line ≠ [] := by
  intro hnil
  have hempty : Text.textOf? (Text.bytesOf line) = Text.textOf? (Text.bytesOf "") := by
    rw [hnil]
    rfl
  rw [Text.textOf?_bytesOf, Text.textOf?_bytesOf] at hempty
  exact h.1 (Option.some.inj hempty)

/-- Where a byte occurs for the first time, a list can be cut in one way only. -/
theorem eq_of_append_cons {a : UInt8} {xs ys rest rest' : List UInt8} (hxs : a ∉ xs) (hys : a ∉ ys)
    (h : xs ++ a :: rest = ys ++ a :: rest') : xs = ys ∧ rest = rest' := by
  induction xs generalizing ys with
  | nil =>
    cases ys with
    | nil => exact ⟨rfl, (List.cons.inj h).2⟩
    | cons y ys => exact absurd (List.cons.inj h).1 (fun ha => hys (ha ▸ List.mem_cons_self))
  | cons x xs ih =>
    cases ys with
    | nil => exact absurd (List.cons.inj h).1 (fun ha => hxs (ha ▸ List.mem_cons_self))
    | cons y ys =>
      obtain ⟨rfl, htail⟩ := List.cons.inj h
      obtain ⟨rfl, hrest⟩ := ih (fun hmem => hxs (List.mem_cons_of_mem _ hmem))
        (fun hmem => hys (List.mem_cons_of_mem _ hmem)) htail
      exact ⟨rfl, hrest⟩

theorem linesBytes_cons (line : String) (lines : List String) :
    linesBytes (line :: lines) =
      Text.bytesOf line ++ carriageReturn :: lineFeed :: linesBytes lines := by
  simp only [linesBytes, lineEnd, List.flatMap_cons, List.append_assoc, List.cons_append,
    List.nil_append]

/-- The bytes of some lines are the bytes of a text. -/
theorem linesBytes_eq_bytesOf (lines : List String) :
    linesBytes lines =
      Text.bytesOf (lines.foldr (fun line rest => line ++ ("\r\n" ++ rest)) "\r\n") := by
  induction lines with
  | nil => rfl
  | cons line lines ih =>
    rw [linesBytes_cons, ih, List.foldr_cons, Text.bytesOf_append, Text.bytesOf_append]
    rfl

/-- The empty line is none of the lines before it. -/
theorem linesBytes_nil_ne {line : String} (h : PlainLine line) (lines : List String)
    (rest rest' : List UInt8) : linesBytes [] ++ rest ≠ linesBytes (line :: lines) ++ rest' := by
  intro heq
  rw [linesBytes_cons] at heq
  rcases hbytes : Text.bytesOf line with _ | ⟨b, bytes⟩
  · exact h.bytes_ne_nil hbytes
  · rw [hbytes] at heq
    have hfirst : carriageReturn = b := (List.cons.inj heq).1
    have hmem : carriageReturn ∈ Text.bytesOf line := by
      rw [hbytes, hfirst]
      exact List.mem_cons_self
    exact h.notMem (by decide) hmem

/-- **Lines and the empty line behind them can be told from what follows.** -/
theorem eq_of_linesBytes_append {lines lines' : List String} {rest rest' : List UInt8}
    (hplain : ∀ line ∈ lines, PlainLine line) (hplain' : ∀ line ∈ lines', PlainLine line)
    (h : linesBytes lines ++ rest = linesBytes lines' ++ rest') :
    lines = lines' ∧ rest = rest' := by
  induction lines generalizing lines' with
  | nil =>
    cases lines' with
    | nil => exact ⟨rfl, List.append_cancel_left h⟩
    | cons line' lines' =>
      exact absurd h (linesBytes_nil_ne (hplain' line' List.mem_cons_self) lines' rest rest')
  | cons line lines ih =>
    cases lines' with
    | nil =>
      exact absurd h.symm (linesBytes_nil_ne (hplain line List.mem_cons_self) lines rest' rest)
    | cons line' lines' =>
      rw [linesBytes_cons, linesBytes_cons, List.append_assoc, List.append_assoc] at h
      obtain ⟨hline, hnext⟩ := eq_of_append_cons
        ((hplain line List.mem_cons_self).notMem (by decide))
        ((hplain' line' List.mem_cons_self).notMem (by decide)) h
      obtain ⟨rfl, hrest⟩ := ih (fun l hl => hplain l (List.mem_cons_of_mem _ hl))
        (fun l hl => hplain' l (List.mem_cons_of_mem _ hl)) (List.cons.inj hnext).2
      have htext := Text.textOf?_bytesOf line
      rw [hline, Text.textOf?_bytesOf] at htext
      exact ⟨by rw [Option.some.inj htext], hrest⟩

/-! ## 2. Heads -/

/-- The head of a response: what its first line says, and its fields. -/
structure Head where
  status : String
  fields : List (String × String)

namespace Head

/-- The lines of a head. -/
def lines (h : Head) : List String :=
  ("HTTP/1.1 " ++ h.status) :: h.fields.map (fun field => field.1 ++ ": " ++ field.2)

/-- The bytes of a head, with the empty line behind it. -/
def bytes (h : Head) : List UInt8 := linesBytes h.lines

/-- A head without a line that breaks. -/
def Plain (h : Head) : Prop := ∀ line ∈ h.lines, PlainLine line

variable {h h' : Head} {rest rest' : List UInt8}

theorem bytes_append_ne_nil (h : Head) (rest : List UInt8) : h.bytes ++ rest ≠ [] := by
  intro hnil
  have hend : linesBytes h.lines = [] := (List.append_eq_nil_iff.mp hnil).1
  rw [linesBytes, List.append_eq_nil_iff] at hend
  exact absurd hend.2 (by simp [lineEnd])

/-- **A head can be told from what follows it.** -/
theorem eq_of_bytes_append (hplain : h.Plain) (hplain' : h'.Plain)
    (heq : h.bytes ++ rest = h'.bytes ++ rest') : h.lines = h'.lines ∧ rest = rest' :=
  eq_of_linesBytes_append hplain hplain' heq

theorem status_eq_of_lines (hlines : h.lines = h'.lines) : h.status = h'.status :=
  (String.append_right_inj _).mp (List.cons.inj hlines).1

end Head

/-! ## 3. Responses -/

/-- How a request is answered with a body. -/
inductive Status where
  | ok
  | notFound
  | internalError
  deriving DecidableEq, Repr

namespace Status

/-- The number and the wording of a status. -/
def phrase : Status → String
  | .ok => "200 OK"
  | .notFound => "404 Not Found"
  | .internalError => "500 Internal Error"

/-- What a body is, where it is more than a reason. -/
def kind? : Status → Option String
  | .ok => some "text/html"
  | _ => none

theorem phrase_injective {s s' : Status} (h : s.phrase = s'.phrase) : s = s' := by
  revert h
  cases s <;> cases s' <;> decide

end Status

/-- The head in front of a body. -/
def Head.ofBody (status : Status) (body : List UInt8) : Head :=
  ⟨status.phrase, status.kind?.toList.map (fun kind => ("Content-Type", kind)) ++
    [("Content-Length", Text.decimal body.length), ("Connection", "close")]⟩

/-- The head that switches to messages. -/
def Head.ofUpgrade (accept : String) : Head :=
  ⟨"101 Switching Protocols",
    [("Upgrade", "websocket"), ("Connection", "Upgrade"), ("Sec-WebSocket-Accept", accept)]⟩

/-- The digits of a number are visible. -/
theorem visible_decimal (n : Nat) : ∀ c ∈ (Text.decimal n).toList, Visible c := by
  intro c hc
  rw [Text.toList_decimal] at hc
  have hdigit := Text.isDigit_toDigits n c hc
  rw [Char.isDigit_iff_toNat] at hdigit
  exact ⟨Nat.le_trans (by decide) hdigit.1, Nat.lt_of_le_of_lt hdigit.2 (by decide)⟩

/-- Six bits are written as a visible character. -/
theorem visible_letter (n : Nat) : Visible (Base64.letter n) := by
  have hsmall : ∀ n : Fin 64, Visible (Base64.letter n) := by decide
  by_cases hn : n < 64
  · exact hsmall ⟨n, hn⟩
  · have hlast : Base64.letter n = '/' := by
      unfold Base64.letter
      rw [if_neg (by omega), if_neg (by omega), if_neg (by omega), if_neg (by omega)]
    rw [hlast]
    decide

theorem visible_encodeChars (bytes : List UInt8) : ∀ c ∈ Base64.encodeChars bytes, Visible c := by
  have hfill : Visible '=' := by decide
  induction bytes using Base64.encodeChars.induct with
  | case1 => simp [Base64.encodeChars]
  | case2 a => simp [Base64.encodeChars, visible_letter, hfill]
  | case3 a b => simp [Base64.encodeChars, visible_letter, hfill]
  | case4 a b c rest ih => simpa [Base64.encodeChars, visible_letter] using ih

/-- The answer to a key is visible, whatever the key is. -/
theorem visible_acceptKey (key : String) : ∀ c ∈ (acceptKey key).toList, Visible c := by
  rw [acceptKey, Base64.encode, String.toList_ofList]
  exact visible_encodeChars _

/-- A line with a visible text behind its beginning. -/
theorem plainLine_append {front back : String} (hfront : PlainLine front)
    (hback : ∀ c ∈ back.toList, Visible c) : PlainLine (front ++ back) := by
  constructor
  · intro hempty
    exact hfront.1 (String.append_eq_empty_iff.mp hempty).1
  · intro c hc
    rw [String.toList_append, List.mem_append] at hc
    exact hc.elim (hfront.2 c) (hback c)

theorem plain_ofBody (status : Status) (body : List UInt8) : (Head.ofBody status body).Plain := by
  have hlength : PlainLine ("Content-Length" ++ ": " ++ Text.decimal body.length) :=
    plainLine_append (by decide) (visible_decimal _)
  have hclose : PlainLine ("Connection" ++ ": " ++ "close") := by decide
  cases status <;>
    simp only [Head.Plain, Head.lines, Head.ofBody, Status.kind?, Status.phrase, Option.toList,
      List.map_cons, List.map_nil, List.nil_append, List.cons_append, List.forall_mem_cons]
  · exact ⟨by decide, by decide, hlength, hclose, by simp⟩
  · exact ⟨by decide, hlength, hclose, by simp⟩
  · exact ⟨by decide, hlength, hclose, by simp⟩

theorem plain_ofUpgrade {accept : String} (h : ∀ c ∈ accept.toList, Visible c) :
    (Head.ofUpgrade accept).Plain := by
  have haccept : PlainLine ("Sec-WebSocket-Accept" ++ ": " ++ accept) :=
    plainLine_append (by decide) h
  simp only [Head.Plain, Head.lines, Head.ofUpgrade, List.map_cons, List.map_nil,
    List.forall_mem_cons]
  exact ⟨by decide, by decide, by decide, haccept, by simp⟩

namespace Response

theorem bytes_switchingProtocols (accept : String) :
    (switchingProtocols accept).bytes = (Head.ofUpgrade accept).bytes := by
  rw [bytes, Head.bytes, linesBytes_eq_bytesOf]
  rfl

/-- **A response with a body is a head and the body**, and the head says how long the body is. -/
theorem bytes_withBody (status : Status) (body : String) :
    Text.bytesOf (withBody status.phrase status.kind? body) =
      (Head.ofBody status (Text.bytesOf body)).bytes ++ Text.bytesOf body := by
  rw [Head.bytes, linesBytes_eq_bytesOf, ← Text.bytesOf_append, Head.ofBody, Text.length_bytesOf]
  apply congrArg Text.bytesOf
  cases status <;> rfl

end Response

/-! ## 4. Forms -/

/-- A frame of the board: one whole binary message, unmasked. -/
def IsBoardFrame (frame : List UInt8) : Prop :=
  ∃ payload : List UInt8, payload.length ≤ 125 ∧
    frame = 0x82 :: UInt8.ofNat payload.length :: payload

/-- What a client gets. -/
inductive Form where
  /-- nothing -/
  | nothing
  /-- a response that switches to messages, with the answer to the client's key, and frames -/
  | session (accept : String)
  /-- one response with a body, and nothing more -/
  | reply (status : Status) (body : List UInt8)

/-- The bytes of a form. -/
inductive Written : Form → List UInt8 → Prop where
  | nothing : Written .nothing []
  | session {accept : String} {frames : List (List UInt8)}
      (haccept : ∀ c ∈ accept.toList, Visible c) (hframes : ∀ frame ∈ frames, IsBoardFrame frame) :
      Written (.session accept) ((Head.ofUpgrade accept).bytes ++ frames.flatten)
  | reply (status : Status) (body : List UInt8) :
      Written (.reply status body) ((Head.ofBody status body).bytes ++ body)

/-- The bytes of a response with a body. -/
theorem written_withBody (status : Status) (body : String) :
    Written (.reply status (Text.bytesOf body))
      (Text.bytesOf (Response.withBody status.phrase status.kind? body)) := by
  rw [Response.bytes_withBody]
  exact .reply status (Text.bytesOf body)

/-- A response that switches to messages is none with a body. -/
theorem ofUpgrade_ne_ofBody {accept : String} (haccept : ∀ c ∈ accept.toList, Visible c)
    (status : Status) (body rest : List UInt8) :
    (Head.ofUpgrade accept).bytes ++ rest ≠ (Head.ofBody status body).bytes ++ body := by
  intro heq
  obtain ⟨hlines, -⟩ :=
    Head.eq_of_bytes_append (plain_ofUpgrade haccept) (plain_ofBody status body) heq
  have hphrase : "101 Switching Protocols" = status.phrase := Head.status_eq_of_lines hlines
  revert hphrase
  cases status <;> decide

/-- **The bytes tell the form.** -/
theorem Written.unique {a b : Form} {bytes : List UInt8} (ha : Written a bytes)
    (hb : Written b bytes) : a = b := by
  rcases ha with _ | ⟨haccept, -⟩ | ⟨status, body⟩
  · generalize hnil : ([] : List UInt8) = bytes at hb
    cases hb with
    | nothing => rfl
    | session => exact absurd hnil.symm (Head.bytes_append_ne_nil _ _)
    | reply => exact absurd hnil.symm (Head.bytes_append_ne_nil _ _)
  · generalize heq : (Head.ofUpgrade _).bytes ++ _ = bytes at hb
    cases hb with
    | nothing => exact absurd heq (Head.bytes_append_ne_nil _ _)
    | session haccept' =>
      obtain ⟨hlines, -⟩ :=
        Head.eq_of_bytes_append (plain_ofUpgrade haccept) (plain_ofUpgrade haccept') heq
      simp only [Head.lines, Head.ofUpgrade, List.map_cons, List.map_nil, List.cons.injEq,
        String.append_right_inj, and_true, true_and] at hlines
      rw [hlines]
    | reply => exact absurd heq (ofUpgrade_ne_ofBody haccept _ _ _)
  · generalize heq : (Head.ofBody _ _).bytes ++ _ = bytes at hb
    cases hb with
    | nothing => exact absurd heq (Head.bytes_append_ne_nil _ _)
    | session haccept' => exact absurd heq.symm (ofUpgrade_ne_ofBody haccept' _ _ _)
    | reply status' body' =>
      obtain ⟨hlines, rfl⟩ :=
        Head.eq_of_bytes_append (plain_ofBody status body) (plain_ofBody status' body') heq
      have hphrase : status.phrase = status'.phrase := Head.status_eq_of_lines hlines
      rw [Status.phrase_injective hphrase]

end Ledboard.Wire
