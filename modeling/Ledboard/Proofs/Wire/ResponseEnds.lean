/-
# Responses end where they say

A client finds the end of a response without knowing what is in it: the head ends at the first
blank line, and says how long the body behind it is.  Neither a body nor a key that a client sent
can move that line.

* **Blank lines** (`prefix_of_endsBlank`).  The lines of a head are visible text, so none of them is
  blank, and a blank line that is looked for is not found before the end of the head.  A line ends
  with a line feed here, with or without a carriage return before it, as some readers have it.
* **Answers to a key** (`acceptKey_answers`).  A digest has twenty bytes, two more than a multiple of
  three, so they are written in 27 letters and one `=`, whatever the key is.
-/
import Ledboard.Proofs.Base64
import Ledboard.Proofs.Wire.HeaderMap
import Ledboard.Proofs.Wire.ResponseFormat

namespace Ledboard.Wire

/-! ## 1. Blank lines -/

/-- An empty line, up to its line feed. -/
def BlankLine (line : List UInt8) : Prop := line = [lineFeed] ∨ line = lineEnd

/-- Bytes that end with a blank line: there is nothing before it, or another line. -/
inductive EndsBlank : List UInt8 → Prop where
  | alone {blank : List UInt8} (h : BlankLine blank) : EndsBlank blank
  | behind (front : List UInt8) {blank : List UInt8} (h : BlankLine blank) :
      EndsBlank (front ++ lineFeed :: blank)

/-- A beginning of some bytes that ends at the first blank line in them. -/
structure EndsAtFirstBlank (head bytes : List UInt8) : Prop where
  /-- two line ends follow one another at its end -/
  ends : ∃ front, head = front ++ lineEnd ++ lineEnd
  begins : head <+: bytes
  /-- and there is no blank line before them, not even one without carriage returns -/
  first : ∀ other, other <+: bytes → EndsBlank other → head <+: other

variable {line : String} {lines : List String} {front back tail rest bytes : List UInt8} {a : UInt8}

/-- What ends with an item lies behind a run without it, or is the run and the item. -/
theorem cut_behind (hfront : a ∉ front) (h : back ++ a :: rest = front ++ a :: tail) :
    (back = front ∧ rest = tail) ∨
      ∃ between, back = front ++ a :: between ∧ between ++ a :: rest = tail := by
  rcases List.append_eq_append_iff.mp h with ⟨between, hlonger, htail⟩ | ⟨between, hlonger, htail⟩
  · rcases between with _ | ⟨b, between⟩
    · rw [List.append_nil] at hlonger
      exact .inl ⟨hlonger.symm, (List.cons.inj htail).2⟩
    · have hmem : a ∈ front := by
        rw [hlonger, (List.cons.inj htail).1]
        exact List.mem_append_right _ List.mem_cons_self
      exact absurd hmem hfront
  · rcases between with _ | ⟨b, between⟩
    · rw [List.append_nil] at hlonger
      exact .inl ⟨hlonger, (List.cons.inj htail).2.symm⟩
    · obtain ⟨rfl, hrest⟩ := List.cons.inj htail
      exact .inr ⟨between, hlonger, hrest.symm⟩

/-- A line of a head is not blank: a blank line lies behind it. -/
theorem PlainLine.behind_of_endsBlank (hline : PlainLine line) (hblank : EndsBlank bytes)
    (h : bytes ++ rest = Text.bytesOf line ++ carriageReturn :: lineFeed :: tail) :
    ∃ later, bytes = Text.bytesOf line ++ carriageReturn :: lineFeed :: later ∧
      EndsBlank later ∧ later ++ rest = tail := by
  cases hblank with
  | alone hend =>
    -- A line starts with a visible byte.
    rcases hbytes : Text.bytesOf line with _ | ⟨b, visible⟩
    · exact absurd hbytes hline.bytes_ne_nil
    · have hmem : b ∈ Text.bytesOf line := hbytes ▸ List.mem_cons_self
      rw [hbytes] at h
      rcases hend with rfl | rfl <;>
        exact absurd ((List.cons.inj h).1 ▸ hmem) (hline.notMem (by decide))
  | @behind front blank hend =>
    have hnone : lineFeed ∉ Text.bytesOf line ++ [carriageReturn] := by
      rw [List.mem_append, not_or]
      exact ⟨hline.notMem (by decide), by decide⟩
    rw [List.append_assoc, List.cons_append,
      List.append_cons (Text.bytesOf line) carriageReturn] at h
    rcases cut_behind hnone h with ⟨rfl, htail⟩ | ⟨between, rfl, htail⟩
    · exact ⟨blank, (List.append_cons _ _ _).symm, .alone hend, htail⟩
    · refine ⟨between ++ lineFeed :: blank, ?_, .behind between hend, ?_⟩
      · simp only [List.append_assoc, List.cons_append, List.nil_append]
      · rw [List.append_assoc, List.cons_append, htail]

/-- **The blank line behind the lines of a head is the first one.** -/
theorem prefix_of_endsBlank (hplain : ∀ line ∈ lines, PlainLine line) (hblank : EndsBlank bytes)
    (h : bytes <+: linesBytes lines ++ rest) : linesBytes lines <+: bytes := by
  obtain ⟨more, h⟩ := h
  induction lines generalizing bytes with
  | nil =>
    cases hblank with
    | alone hend =>
      rcases hend with rfl | rfl
      · exact absurd (List.cons.inj h).1 (by decide)
      · exact List.prefix_rfl
    | @behind front blank hend =>
      have hnone : lineFeed ∉ [carriageReturn] := by decide
      have hfirst : front ++ lineFeed :: (blank ++ more) = [carriageReturn] ++ lineFeed :: rest := by
        rw [← List.cons_append, ← List.append_assoc]
        exact h
      rcases cut_behind hnone hfirst with ⟨rfl, -⟩ | ⟨between, rfl, -⟩
      · exact ⟨_, rfl⟩
      · exact ⟨_, rfl⟩
  | cons line lines ih =>
    rw [linesBytes_cons, List.append_assoc] at h
    obtain ⟨later, rfl, hlater, htail⟩ :=
      (hplain line List.mem_cons_self).behind_of_endsBlank hblank h
    obtain ⟨end', hend⟩ := ih (fun l hl => hplain l (List.mem_cons_of_mem _ hl)) hlater htail
    refine ⟨end', ?_⟩
    rw [linesBytes_cons, ← hend, List.append_assoc]
    rfl

/-- Lines end with a line end, and an empty line follows. -/
theorem exists_linesBytes (line : String) (lines : List String) :
    ∃ front, linesBytes (line :: lines) = front ++ lineEnd ++ lineEnd := by
  induction lines generalizing line with
  | nil => exact ⟨Text.bytesOf line, by simp [linesBytes]⟩
  | cons next lines ih =>
    obtain ⟨front, hfront⟩ := ih next
    refine ⟨Text.bytesOf line ++ carriageReturn :: lineFeed :: front, ?_⟩
    rw [linesBytes_cons, hfront]
    simp only [List.append_assoc, List.cons_append]

/-- **A head ends at the first blank line**, whatever follows it. -/
theorem Head.Plain.endsAtFirstBlank {head : Head} (hplain : head.Plain) (rest : List UInt8) :
    EndsAtFirstBlank head.bytes (head.bytes ++ rest) where
  ends := exists_linesBytes _ _
  begins := List.prefix_append _ _
  first := fun _ hother hblank => prefix_of_endsBlank hplain hblank hother

/-! ## 2. Bodies -/

/-- The body of a response, if it has one. -/
def Response.body? : Response → Option String
  | .switchingProtocols _ => none
  | .html body => some body
  | .notFound => some "Not Found!"
  | .internalError body => some body

/-- Bytes that are a head up to the first blank line, and a body. -/
structure Delimited (head : Head) (body bytes : List UInt8) : Prop where
  parts : bytes = head.bytes ++ body
  blank : EndsAtFirstBlank head.bytes bytes
  /-- the name of a field ends at the first colon -/
  names : ∀ field ∈ head.fields, ':' ∉ field.1.toList

/-- A response with a body has a status. -/
theorem Response.exists_status {r : Response} {body : String} (h : r.body? = some body) :
    ∃ status : Status,
      r.bytes = (Head.ofBody status (Text.bytesOf body)).bytes ++ Text.bytesOf body := by
  cases r with
  | switchingProtocols accept => exact absurd h (by simp [body?])
  | html page =>
    obtain rfl := Option.some.inj h
    exact ⟨.ok, bytes_withBody .ok page⟩
  | notFound =>
    obtain rfl := Option.some.inj h
    exact ⟨.notFound, bytes_withBody .notFound "Not Found!"⟩
  | internalError reason =>
    obtain rfl := Option.some.inj h
    exact ⟨.internalError, bytes_withBody .internalError reason⟩

/-- The length of the body is said once. -/
theorem valuesUnder_contentLength (status : Status) (body : List UInt8) :
    Headers.valuesUnder "Content-Length" (Head.ofBody status body).fields =
      [toString body.length] := by
  have hdecimal : Text.decimal body.length = toString body.length := rfl
  have hkind : sameKey "Content-Type" "Content-Length" = false := by decide
  have hlength : sameKey "Content-Length" "Content-Length" = true := by decide
  have hclose : sameKey "Connection" "Content-Length" = false := by decide
  rw [← hdecimal]
  cases status <;>
    simp [Headers.valuesUnder, Head.ofBody, Status.kind?, hkind, hlength, hclose]

theorem delimited_ofBody (status : Status) (body : List UInt8) :
    Delimited (Head.ofBody status body) body ((Head.ofBody status body).bytes ++ body) where
  parts := rfl
  blank := (plain_ofBody status body).endsAtFirstBlank body
  names := by
    cases status <;> simp [Head.ofBody, Status.kind?]

/-! ## 3. Answers to a key -/

/-- The answer to a key is returned once. -/
theorem valuesUnder_accept (accept : String) :
    Headers.valuesUnder "Sec-WebSocket-Accept" (Head.ofUpgrade accept).fields = [accept] := by
  have hupgrade : sameKey "Upgrade" "Sec-WebSocket-Accept" = false := by decide
  have hconnection : sameKey "Connection" "Sec-WebSocket-Accept" = false := by decide
  have haccept : sameKey "Sec-WebSocket-Accept" "Sec-WebSocket-Accept" = true := by decide
  simp [Headers.valuesUnder, Head.ofUpgrade, hupgrade, hconnection, haccept]

/-- The answer to a key: 27 letters and one `=`, in which the digest of the key and the identifier
of the protocol is written. -/
structure Answers (key accept : String) : Prop where
  letters : ∃ letters, accept.toList = letters ++ ['='] ∧ letters.length = 27 ∧
    ∀ c ∈ letters, c ∈ Base64.alphabet
  digest : Base64.decode? accept.toList =
    some (Sha1.digest
      (Text.bytesOf key ++ Text.bytesOf "258EAFA5-E914-47DA-95CA-C5AB0DC85B11"))

/-- **The answer to a key has the form of an answer**, whatever the key is. -/
theorem acceptKey_answers (key : String) : Answers key (acceptKey key) where
  letters := by
    rw [acceptKey, Base64.encode, String.toList_ofList]
    have hdigest := Sha1.length_digest (Text.bytesOf key ++ Text.bytesOf upgradeIdentifier)
    obtain ⟨letters, heq, hlength, hletters⟩ := Base64.exists_letters (by rw [hdigest])
    exact ⟨letters, heq, by omega, hletters⟩
  digest := by
    rw [acceptKey, upgradeIdentifier, Base64.encode, String.toList_ofList,
      Base64.decode?_encodeChars]

theorem delimited_ofUpgrade {accept : String} (h : ∀ c ∈ accept.toList, Visible c) :
    Delimited (Head.ofUpgrade accept) [] (Head.ofUpgrade accept).bytes where
  parts := (List.append_nil _).symm
  blank := by
    have hblank := (plain_ofUpgrade h).endsAtFirstBlank []
    rwa [List.append_nil] at hblank
  names := by
    simp [Head.ofUpgrade]

/-! ## 4. The whole -/

/-- **A response ends where it says, whatever is in it.**

* With a body, it is a head up to the first blank line and the bytes of the body, and the head says
  once how many bytes these are, in decimal.
* A request that has a key is answered by a head and nothing else: the only blank line is its end.
  It returns one answer to the first key.
* A header map has a key if one was added to it, in any spelling, and the first key is the one that
  was added first. -/
theorem responses_delimit_themselves :
    (∀ (r : Response) (body : String), r.body? = some body →
      ∃ head : Head, Delimited head (Text.bytesOf body) r.bytes ∧
        Headers.valuesUnder "Content-Length" head.fields =
          [toString (Text.bytesOf body).length]) ∧
    (∀ (h : Headers) (key : String) (more : List String),
      h.get? "Sec-WebSocket-Key" = some (key :: more) →
      ∃ (accept : String) (head : Head),
        Response.upgrade h = .ok (.switchingProtocols accept) ∧
        Delimited head [] (Response.switchingProtocols accept).bytes ∧
        head.status = "101 Switching Protocols" ∧
        Headers.valuesUnder "Sec-WebSocket-Accept" head.fields = [accept] ∧
        Answers key accept) ∧
    ∀ calls : List Headers.Call, let added := calls.filterMap Headers.Call.field?
      (∃ field ∈ added, sameKey field.1 "Sec-WebSocket-Key" = true) →
        ∃ key more, Headers.valuesUnder "Sec-WebSocket-Key" added = key :: more ∧
          (Headers.empty.callAll calls).2.get? "Sec-WebSocket-Key" = some (key :: more) := by
  refine ⟨fun r body hbody => ?_, fun h key more hkey => ?_, fun calls => ?_⟩
  · obtain ⟨status, hbytes⟩ := Response.exists_status hbody
    rw [hbytes]
    exact ⟨_, delimited_ofBody status _, valuesUnder_contentLength status _⟩
  · have hfirst : h.first? keyHeader = some key := by
      rw [Headers.first?, keyHeader, hkey]
      rfl
    have hupgrade : Response.upgrade h = .ok (.switchingProtocols (acceptKey key)) := by
      rw [Response.upgrade, hfirst]
    refine ⟨acceptKey key, Head.ofUpgrade (acceptKey key), hupgrade, ?_, rfl,
      valuesUnder_accept _, acceptKey_answers key⟩
    rw [Response.bytes_switchingProtocols]
    exact delimited_ofUpgrade (visible_acceptKey key)
  · intro added hadded
    have hempty : Headers.Represents [] Headers.empty := rfl
    have hrep := (Headers.represents_callAll hempty rfl calls).1
    have hget := Headers.get?_of_represents hrep hadded
    rcases hvalues : Headers.valuesUnder "Sec-WebSocket-Key" added with _ | ⟨key, more⟩
    · obtain ⟨field, hfield, hsame⟩ := hadded
      exact absurd hsame (Bool.eq_false_iff.mp (Headers.valuesUnder_eq_nil_iff.mp hvalues _ hfield))
    · exact ⟨key, more, rfl, hvalues ▸ hget⟩

/-- A page that begins with blank lines, and a key with a response of its own behind a blank line,
under a header that is spelt otherwise and comes twice.  The answer to a key can be written down:
the one that is shown is the example of the protocol. -/
theorem responses_delimit_themselves_of_forged_key :
    let page := "\r\n\r\né"
    let key := "x\r\n\r\nHTTP/1.1 200 OK\r\n\r\n"
    let calls : List Headers.Call :=
      [.append "sec-websocket-KEY" key, .append "Sec-WebSocket-Key" "y"]
    (∃ head : Head, Delimited head (Text.bytesOf page) (Response.html page).bytes ∧
      Headers.valuesUnder "Content-Length" head.fields = ["6"]) ∧
    (Headers.empty.callAll calls).2.get? "Sec-WebSocket-Key" = some [key, "y"] ∧
    (∃ (accept : String) (head : Head),
      Response.upgrade (Headers.empty.callAll calls).2 = .ok (.switchingProtocols accept) ∧
      Delimited head [] (Response.switchingProtocols accept).bytes ∧
      head.status = "101 Switching Protocols" ∧
      Headers.valuesUnder "Sec-WebSocket-Accept" head.fields = [accept] ∧
      Answers key accept) ∧
    Response.upgrade
        (Headers.empty.append "Sec-WebSocket-Key" "dGhlIHNhbXBsZSBub25jZQ==") =
      .ok (.switchingProtocols "s3pPLMBiTxaQ9kYGzzhZRbK+xOo=") := by
  intro page key calls
  obtain ⟨hbody, hupgrade, hadded⟩ := responses_delimit_themselves
  obtain ⟨first, more, hvalues, hget⟩ :=
    hadded calls ⟨("sec-websocket-KEY", key), List.mem_cons_self, by decide⟩
  have hboth :
      Headers.valuesUnder "Sec-WebSocket-Key" (calls.filterMap Headers.Call.field?) =
        [key, "y"] := by
    decide
  rw [← hvalues, hboth] at hget
  have hlength : (Text.bytesOf page).length = 6 := by decide
  have hpage := hbody (.html page) page rfl
  rw [hlength] at hpage
  exact ⟨hpage, hget, hupgrade _ key ["y"] hget, by decide +kernel⟩

end Ledboard.Wire
