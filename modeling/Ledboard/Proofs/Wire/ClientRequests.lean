/-
# The requests of a client

A client's request is lines: one with the method, the path and the version, one for each header
field, and an empty line.  Each of them ends with a line feed, before which the client may put a
carriage return.

* **Lines** (`readLine_eq_iff`).  What reading a line comes to depends on where the first line feed
  is (`LineRead`).  The line of a client is read as its text (`ClientLine.read_bytes`).
* **More bytes** (`Request.read_append`).  Reading never looks behind the line that decides it: only
  a stream that ends too early is read otherwise when more bytes follow.
* **Requests** (`read_written_request`).  The lines of a client's request are read as its parts and
  its fields, and what is behind the empty line is left.
-/
import Mathlib.Data.Bool.AllAny
import Mathlib.Data.List.Basic
import Ledboard.Proofs.Wire.HeaderMap
import Ledboard.Wire.Request

namespace Ledboard.Wire

/-! ## 1. Lines -/

/-- What reading a line gives, and what it leaves. -/
inductive LineRead : List UInt8 → Except Fault String → List UInt8 → Prop where
  /-- a line that ends within the limit -/
  | whole {line : List UInt8} (rest : List UInt8) (hfeed : lineFeed ∉ line)
      (hshort : line.length < lineLimit) :
      LineRead (line ++ lineFeed :: rest) (lineText (dropReturn line)) rest
  /-- a line that reaches the limit -/
  | long {front : List UInt8} (rest : List UInt8) (hfeed : lineFeed ∉ front)
      (hlength : front.length = lineLimit) : LineRead (front ++ rest) (.error .lineTooLong) rest
  /-- a stream that ends before the line does -/
  | cut {bytes : List UInt8} (hfeed : lineFeed ∉ bytes) (hshort : bytes.length < lineLimit) :
      LineRead bytes (.error .closed) []

section Reading

variable {bytes line rest : List UInt8} {outcome : Except Fault String}

theorem readLine_of_lineRead (h : LineRead bytes outcome rest) :
    readLine bytes = ⟨outcome, rest⟩ := by
  cases h with
  | @whole line rest hfeed hshort =>
    have hline := takeWhile_of_notMem hfeed rest
    have htake : line.take lineLimit = line := List.take_of_length_le (Nat.le_of_lt hshort)
    simp only [readLine, hline, htake, if_neg (Nat.ne_of_lt hshort), List.drop_left]
  | @long front rest hfeed hlength =>
    have htake : ((front ++ rest).takeWhile (· != lineFeed)).take lineLimit = front := by
      rw [takeWhile_append_of_notMem hfeed, ← hlength, List.take_left]
    simp only [readLine, htake, hlength, if_true]
    rw [← hlength, List.drop_left]
  | cut hfeed hshort =>
    have hline := takeWhile_eq_self_of_notMem hfeed
    have htake : bytes.take lineLimit = bytes := List.take_of_length_le (Nat.le_of_lt hshort)
    simp only [readLine, hline, htake, if_neg (Nat.ne_of_lt hshort), List.drop_length]

/-- Every stream starts with a whole line, with a long one, or is cut. -/
theorem exists_lineRead (bytes : List UInt8) : ∃ outcome rest, LineRead bytes outcome rest := by
  have hsplit : bytes.take lineLimit ++ bytes.drop lineLimit = bytes :=
    List.take_append_drop lineLimit bytes
  have hlength : (bytes.take lineLimit).length = min lineLimit bytes.length := List.length_take
  by_cases hfeed : lineFeed ∈ bytes.take lineLimit
  · obtain ⟨line, behind, htake, hline⟩ := List.eq_append_cons_of_mem hfeed
    rw [htake, List.length_append, List.length_cons] at hlength
    rw [← hsplit, htake, List.append_assoc, List.cons_append]
    exact ⟨_, _, .whole _ hline (by omega)⟩
  · rcases Nat.lt_or_ge bytes.length lineLimit with hshort | hlong
    · rw [List.take_of_length_le (Nat.le_of_lt hshort)] at hfeed
      exact ⟨_, _, .cut hfeed hshort⟩
    · rw [← hsplit]
      exact ⟨_, _, .long _ hfeed (by omega)⟩

theorem readLine_eq_iff : readLine bytes = ⟨outcome, rest⟩ ↔ LineRead bytes outcome rest := by
  constructor
  · intro h
    obtain ⟨outcome', rest', hread⟩ := exists_lineRead bytes
    rw [readLine_of_lineRead hread, Reading.mk.injEq] at h
    obtain ⟨rfl, rfl⟩ := h
    exact hread
  · exact readLine_of_lineRead

/-! ## 2. More bytes -/

/-- What was read stays so when more bytes follow, but for a stream that was cut. -/
theorem readLine_append (h : readLine bytes = ⟨outcome, rest⟩) (hopen : outcome ≠ .error .closed)
    (more : List UInt8) : readLine (bytes ++ more) = ⟨outcome, rest ++ more⟩ := by
  rw [readLine_eq_iff] at h ⊢
  cases h with
  | whole rest hfeed hshort =>
    rw [List.append_assoc]
    exact .whole (rest ++ more) hfeed hshort
  | long rest hfeed hlength =>
    rw [List.append_assoc]
    exact .long (rest ++ more) hfeed hlength
  | cut => exact absurd rfl hopen

variable {headers next : Headers} {text : String} {fault : Fault} {result : Except Fault Headers}

theorem readHeaders_of_fault (h : readLine bytes = ⟨.error fault, rest⟩) (headers : Headers) :
    readHeaders headers bytes = ⟨.error fault, rest⟩ := by
  rw [readHeaders]
  split <;> simp_all

theorem readHeaders_of_empty (h : readLine bytes = ⟨.ok "", rest⟩) (headers : Headers) :
    readHeaders headers bytes = ⟨.ok headers, rest⟩ := by
  rw [readHeaders]
  split <;> simp_all

theorem readHeaders_of_refused (h : readLine bytes = ⟨.ok text, rest⟩) (htext : text ≠ "")
    (hadd : headers.addLine text = .error fault) :
    readHeaders headers bytes = ⟨.error fault, rest⟩ := by
  rw [readHeaders]
  split <;> simp_all

theorem readHeaders_of_field (h : readLine bytes = ⟨.ok text, rest⟩) (htext : text ≠ "")
    (hadd : headers.addLine text = .ok next) :
    readHeaders headers bytes = readHeaders next rest := by
  rw [readHeaders]
  split <;> simp_all

/-- **Nor do header lines change when more bytes follow.** -/
theorem readHeaders_append (h : readHeaders headers bytes = ⟨result, rest⟩)
    (hopen : result ≠ .error .closed) (more : List UInt8) :
    readHeaders headers (bytes ++ more) = ⟨result, rest ++ more⟩ := by
  -- A line that is read leaves fewer bytes, so the induction is on how many there are.
  induction hlength : bytes.length using Nat.strongRecOn generalizing headers bytes with
  | ind length ih =>
    rcases hread : readLine bytes with ⟨fault | text, behind⟩
    · rw [readHeaders_of_fault hread, Reading.mk.injEq] at h
      obtain ⟨rfl, rfl⟩ := h
      have hfault : (.error fault : Except Fault String) ≠ .error .closed := by simpa using hopen
      exact readHeaders_of_fault (readLine_append hread hfault more) headers
    · have hmore := readLine_append hread (by simp) more
      by_cases htext : text = ""
      · subst htext
        rw [readHeaders_of_empty hread, Reading.mk.injEq] at h
        obtain ⟨rfl, rfl⟩ := h
        exact readHeaders_of_empty hmore headers
      · cases hadd : headers.addLine text with
        | error fault =>
          rw [readHeaders_of_refused hread htext hadd, Reading.mk.injEq] at h
          obtain ⟨rfl, rfl⟩ := h
          exact readHeaders_of_refused hmore htext hadd
        | ok next =>
          rw [readHeaders_of_field hread htext hadd] at h
          rw [readHeaders_of_field hmore htext hadd]
          exact ih behind.length (hlength ▸ length_rest_readLine hread) h rfl

/-- **Nor does a request.** -/
theorem Request.read_append {result : Except Fault Request} (h : read bytes = ⟨result, rest⟩)
    (hopen : result ≠ .error .closed) (more : List UInt8) :
    read (bytes ++ more) = ⟨result, rest ++ more⟩ := by
  unfold read at h
  split at h
  · rename_i fault behind hline
    rw [Reading.mk.injEq] at h
    obtain ⟨rfl, rfl⟩ := h
    have hfault : (.error fault : Except Fault String) ≠ .error .closed := by simpa using hopen
    simp only [read, readLine_append hline hfault more]
  · rename_i text behind hline
    have hmore := readLine_append hline (by simp) more
    split at h
    · rename_i hhead
      rw [Reading.mk.injEq] at h
      obtain ⟨rfl, rfl⟩ := h
      simp only [read, hmore, hhead]
    · rename_i method path version hhead
      split at h
      · rename_i fault last hheaders
        rw [Reading.mk.injEq] at h
        obtain ⟨rfl, rfl⟩ := h
        have hfault : (.error fault : Except Fault Headers) ≠ .error .closed := by
          simpa using hopen
        simp only [read, hmore, hhead, readHeaders_append hheaders hfault more]
      · rename_i headers last hheaders
        rw [Reading.mk.injEq] at h
        obtain ⟨rfl, rfl⟩ := h
        simp only [read, hmore, hhead, readHeaders_append hheaders (by simp) more]

end Reading

/-! ## 3. The lines of a client -/

/-- How a client ends a line. -/
inductive LineBreak where
  /-- with a line feed alone -/
  | feed
  /-- with a carriage return and a line feed -/
  | returnFeed
  deriving DecidableEq, Repr

/-- The bytes at the end of a line. -/
def LineBreak.bytes : LineBreak → List UInt8
  | .feed => [lineFeed]
  | .returnFeed => [carriageReturn, lineFeed]

/-- A line of a client, with the end that the client chose. -/
structure ClientLine where
  text : String
  ending : LineBreak
  /-- the text has no line feed in it -/
  unbroken : '\n' ∉ text.toList
  /-- nor does it end with a carriage return that would count as a part of the line's end -/
  distinct : ending = .feed → text.toList.getLast? ≠ some '\r'
  short : (Text.bytesOf text ++ ending.bytes).length ≤ 4096

namespace ClientLine

/-- The bytes of a line. -/
def bytes (l : ClientLine) : List UInt8 := Text.bytesOf l.text ++ l.ending.bytes

theorem lineFeed_notMem (l : ClientLine) : lineFeed ∉ Text.bytesOf l.text := by
  intro hmem
  obtain ⟨c, hc, hnumber⟩ := Text.exists_of_mem_bytesOf (by decide) hmem
  have heq : c = '\n' := Char.toNat_inj.mp hnumber
  exact l.unbroken (heq ▸ hc)

/-- A line that ends with a line feed alone loses no carriage return. -/
theorem dropReturn_text {l : ClientLine} (h : l.ending = .feed) :
    dropReturn (Text.bytesOf l.text) = Text.bytesOf l.text := by
  unfold dropReturn
  split
  · rename_i hreturn
    obtain ⟨c, hc, hnumber⟩ := Text.exists_of_getLast?_bytesOf (by decide) hreturn
    have heq : c = '\r' := Char.toNat_inj.mp hnumber
    exact absurd (heq ▸ hc) (l.distinct h)
  · rfl

theorem dropReturn_append (line : List UInt8) : dropReturn (line ++ [carriageReturn]) = line := by
  rw [dropReturn, List.getLast?_concat, if_pos rfl, List.dropLast_concat]

/-- A line that ends within the limit is read as the text of its bytes. -/
theorem readLine_of_text {line : List UInt8} {text : String} (hfeed : lineFeed ∉ line)
    (hshort : line.length < lineLimit) (htext : dropReturn line = Text.bytesOf text)
    (rest : List UInt8) : readLine (line ++ lineFeed :: rest) = ⟨.ok text, rest⟩ := by
  have hread := readLine_of_lineRead (.whole rest hfeed hshort)
  rw [htext, lineText, Text.textOf?_bytesOf] at hread
  exact hread

/-- **The line of a client is read as its text**, and what is behind it is left. -/
theorem read_bytes (l : ClientLine) (rest : List UInt8) :
    readLine (l.bytes ++ rest) = ⟨.ok l.text, rest⟩ := by
  have hfeed := l.lineFeed_notMem
  have hshort := l.short
  rw [bytes, List.append_assoc]
  cases hending : l.ending with
  | feed =>
    rw [hending, List.length_append] at hshort
    exact readLine_of_text hfeed hshort (dropReturn_text hending) rest
  | returnFeed =>
    have hline : lineFeed ∉ Text.bytesOf l.text ++ [carriageReturn] := by
      rw [List.mem_append, not_or]
      exact ⟨hfeed, by decide⟩
    have hlength : (Text.bytesOf l.text ++ [carriageReturn]).length < lineLimit := by
      rw [hending, List.length_append] at hshort
      rw [List.length_append]
      exact hshort
    have hread := readLine_of_text hline hlength (dropReturn_append _) rest
    rw [List.append_assoc] at hread
    exact hread

/-- An empty line. -/
def blank (ending : LineBreak) : ClientLine :=
  ⟨"", ending, by decide, by simp, by cases ending <;> decide⟩

end ClientLine

/-! ## 4. Fields -/

/-- A header field of a client. -/
structure ClientField where
  key : String
  value : String
  key_ne : key ≠ ""
  colonless : ':' ∉ key.toList
  /-- no character of the key is white space -/
  blankless : ∀ c ∈ key.toList, c.toNat ∉ Text.whiteSpace
  value_trimmed : Text.trim value.toList = value.toList

namespace ClientField

/-- The line of a field. -/
def text (f : ClientField) : String := f.key ++ ": " ++ f.value

theorem text_ne (f : ClientField) : f.text ≠ "" := by
  intro hempty
  rw [text, String.append_eq_empty_iff, String.append_eq_empty_iff] at hempty
  exact f.key_ne hempty.1.1

theorem toList_text (f : ClientField) :
    f.text.toList = f.key.toList ++ ':' :: ' ' :: f.value.toList := by
  rw [text, String.toList_append, String.toList_append, List.append_assoc]
  rfl

/-- The line of a field is one that a header map takes apart into this field. -/
theorem fieldLine_text (f : ClientField) : Headers.FieldLine f.text.toList f.key f.value where
  parts := ⟨' ' :: f.value.toList, f.toList_text, Text.trim_eq_iff.mp f.value_trimmed⟩
  colonless := f.colonless
  nonempty := f.key_ne
  blankless := fun c hc =>
    Bool.eq_false_iff.mpr fun hblank => f.blankless c hc (Text.isBlank_iff_mem.mp hblank)

theorem addLine_text (f : ClientField) (headers : Headers) :
    headers.addLine f.text = .ok (headers.append f.key f.value) := by
  simp only [Headers.addLine, Headers.field?_of_fieldLine f.fieldLine_text]

/-- **The lines of some fields are read as these fields**, in their order. -/
theorem readHeaders_lines {fields : List ClientField} {lines : List ClientLine}
    (hlines : lines.map ClientLine.text = fields.map text) (headers : Headers) (ending : LineBreak)
    (rest : List UInt8) :
    readHeaders headers
        (lines.flatMap ClientLine.bytes ++ ((ClientLine.blank ending).bytes ++ rest)) =
      ⟨.ok (fields.foldl (fun h f => h.append f.key f.value) headers), rest⟩ := by
  induction fields generalizing lines headers with
  | nil =>
    rw [List.map_nil, List.map_eq_nil_iff] at hlines
    subst hlines
    exact readHeaders_of_empty ((ClientLine.blank ending).read_bytes rest) headers
  | cons f fields ih =>
    obtain ⟨l, lines, rfl, hl, hlines⟩ := List.map_eq_cons_iff.mp hlines
    have hread := l.read_bytes
      (lines.flatMap ClientLine.bytes ++ ((ClientLine.blank ending).bytes ++ rest))
    rw [hl] at hread
    rw [List.flatMap_cons, List.append_assoc,
      readHeaders_of_field hread f.text_ne (f.addLine_text headers), ih hlines, List.foldl_cons]

end ClientField

/-! ## 5. Requests -/

/-- What a client asks for. -/
structure ClientHead where
  method : String
  path : String
  version : String
  method_ne : method ≠ ""
  path_absolute : path.toList.head? = some '/'
  spaceless : ∀ part ∈ [method, path, version], ' ' ∉ part.toList

namespace ClientHead

/-- The first line of a request. -/
def text (h : ClientHead) : String := h.method ++ " " ++ h.path ++ " " ++ h.version

/-- The first line is taken apart at its spaces. -/
theorem head?_text (h : ClientHead) :
    Request.head? h.text.toList = some (h.method, h.path, h.version) := by
  have hjoined : h.text.toList =
      [' '].intercalate ([h.method, h.path, h.version].map String.toList) := by
    simp [text, List.intercalate]
  have hparts : h.text.toList.splitOn ' ' = [h.method, h.path, h.version].map String.toList := by
    rw [hjoined]
    apply List.splitOn_intercalate
    · intro part hpart
      obtain ⟨s, hs, rfl⟩ := List.mem_map.mp hpart
      exact h.spaceless s hs
    · exact List.cons_ne_nil _ _
  simp only [List.map_cons, List.map_nil] at hparts
  have hmethod : h.method.toList.isEmpty = false := by
    rw [List.isEmpty_eq_false_iff]
    exact fun hnil => h.method_ne (String.toList_eq_nil_iff.mp hnil)
  simp only [Request.head?, hparts, hmethod, h.path_absolute, bne_self_eq_false, Bool.or_self,
    Bool.false_eq_true, if_false, String.ofList_toList]

end ClientHead

/-- **A client's request is read as it is meant**, and what is behind its empty line is left. -/
theorem read_written_request {head : ClientHead} {first : ClientLine}
    (hfirst : first.text = head.text) {fields : List ClientField} {lines : List ClientLine}
    (hlines : lines.map ClientLine.text = fields.map ClientField.text) (ending : LineBreak)
    (rest : List UInt8) :
    Request.read (first.bytes ++ lines.flatMap ClientLine.bytes ++ ending.bytes ++ rest) =
      ⟨.ok ⟨head.method, head.path, head.version,
        fields.foldl (fun headers f => headers.append f.key f.value) .empty⟩, rest⟩ := by
  have hblank : (ClientLine.blank ending).bytes = ending.bytes := rfl
  have hline := first.read_bytes (lines.flatMap ClientLine.bytes ++ (ending.bytes ++ rest))
  have hheaders := ClientField.readHeaders_lines hlines .empty ending rest
  rw [hfirst] at hline
  rw [hblank] at hheaders
  rw [List.append_assoc, List.append_assoc]
  simp only [Request.read, hline, head.head?_text, hheaders]

/-- A request with two fields of one key, one of them empty, with lines that end in either way and
a first line that keeps a carriage return, and with a message behind it. -/
theorem read_written_request_of_upgrade :
    let key : ClientField :=
      ⟨"Sec-WebSocket-Key", "a b: c", by decide, by decide,
        List.all_iff_forall_prop.mp (by decide), by decide⟩
    let accept : ClientField :=
      ⟨"Accept", "", by decide, by decide, List.all_iff_forall_prop.mp (by decide), by decide⟩
    let again : ClientField :=
      ⟨"accept", "b", by decide, by decide, List.all_iff_forall_prop.mp (by decide), by decide⟩
    let head : ClientHead := ⟨"GET", "/ws", "HTTP/1.1\r", by decide, by decide, by decide⟩
    let first : ClientLine := ⟨head.text, .returnFeed, by decide, by decide, by decide +kernel⟩
    let lines : List ClientLine :=
      [⟨accept.text, .feed, by decide, by decide, by decide +kernel⟩,
        ⟨key.text, .returnFeed, by decide, by decide, by decide +kernel⟩,
        ⟨again.text, .feed, by decide, by decide, by decide +kernel⟩]
    first.text = head.text ∧
      lines.map ClientLine.text = [accept, key, again].map ClientField.text ∧
      Request.read (first.bytes ++ lines.flatMap ClientLine.bytes ++ [10] ++ [0x82, 0x80]) =
        ⟨.ok ⟨"GET", "/ws", "HTTP/1.1\r",
          ⟨[("Accept", #["", "b"]), ("Sec-WebSocket-Key", #["a b: c"])]⟩⟩, [0x82, 0x80]⟩ := by
  intro key accept again head first lines
  have hlines : lines.map ClientLine.text = [accept, key, again].map ClientField.text := rfl
  have hfirst : first.text = head.text := rfl
  have hheaders :
      [accept, key, again].foldl (fun headers f => headers.append f.key f.value) .empty =
      (⟨[("Accept", #["", "b"]), ("Sec-WebSocket-Key", #["a b: c"])]⟩ : Headers) := by
    decide +kernel
  have hread := read_written_request hfirst hlines .feed [0x82, 0x80]
  rw [hheaders] at hread
  exact ⟨hfirst, hlines, hread⟩

end Ledboard.Wire
