/-
# Requests

A request is a line of method, path and version, separated by single spaces, then header lines,
then an empty line.  A line ends with a line feed, before which one carriage return is dropped,
and has at most 4096 bytes with its end.

Reading takes lines off a finite byte string and says what is left unread.  A stream that ends
before the empty line is `closed`, wherever it ends.
-/
import Ledboard.Text.Utf8
import Ledboard.Wire.Headers

namespace Ledboard.Wire

/-- The byte that ends a line. -/
def lineFeed : UInt8 := 10

/-- The byte that may precede a line's end. -/
def carriageReturn : UInt8 := 13

/-- The bytes of a line without a carriage return at its end. -/
def dropReturn (line : List UInt8) : List UInt8 :=
  if line.getLast? = some carriageReturn then line.dropLast else line

/-- The text of a line's bytes. -/
def lineText (line : List UInt8) : Except Fault String :=
  match Text.textOf? line with
  | some text => .ok text
  | none => .error (.malformedHeader (Text.lossyText line))

/-- Reads a line. -/
def readLine (bytes : List UInt8) : Reading String :=
  let line := (bytes.takeWhile (· != lineFeed)).take lineLimit
  if line.length = lineLimit then ⟨.error .lineTooLong, bytes.drop lineLimit⟩
  else
    match bytes.drop line.length with
    | [] => ⟨.error .closed, []⟩
    | _ :: rest => ⟨lineText (dropReturn line), rest⟩

theorem length_rest_readLine {bytes rest : List UInt8} {line : String}
    (h : readLine bytes = ⟨.ok line, rest⟩) : rest.length < bytes.length := by
  unfold readLine at h
  simp only at h
  split at h
  · simp at h
  · split at h
    · simp at h
    · rename_i b tail heq
      have hl := congrArg List.length heq
      simp only [List.length_drop, List.length_cons] at hl
      simp only [Reading.mk.injEq] at h
      obtain ⟨-, rfl⟩ := h
      omega

/-- Reads header lines up to the empty line and adds their fields. -/
def readHeaders (headers : Headers) (bytes : List UInt8) : Reading Headers :=
  match _h : readLine bytes with
  | ⟨.error fault, rest⟩ => ⟨.error fault, rest⟩
  | ⟨.ok line, rest⟩ =>
    if line.isEmpty then ⟨.ok headers, rest⟩
    else
      match headers.addLine line with
      | .error fault => ⟨.error fault, rest⟩
      | .ok headers => readHeaders headers rest
termination_by bytes.length
decreasing_by exact length_rest_readLine (by assumption)

/-- A request that was read in full. -/
structure Request where
  method : String
  path : String
  version : String
  headers : Headers
  deriving DecidableEq, Repr

namespace Request

/-- Whether a request fetches a path. -/
def isGet (r : Request) (path : String) : Bool := r.method == "GET" && r.path == path

/-- The method, path and version of a request line. -/
def head? (line : List Char) : Option (String × String × String) :=
  match line.splitOn ' ' with
  | [method, path, version] =>
    if method.isEmpty || path.head? != some '/' then none
    else some (String.ofList method, String.ofList path, String.ofList version)
  | _ => none

/-- Reads a request. -/
def read (bytes : List UInt8) : Reading Request :=
  match readLine bytes with
  | ⟨.error fault, rest⟩ => ⟨.error fault, rest⟩
  | ⟨.ok line, rest⟩ =>
    match head? line.toList with
    | none => ⟨.error (.malformedRequestLine line), rest⟩
    | some (method, path, version) =>
      match readHeaders .empty rest with
      | ⟨.error fault, rest⟩ => ⟨.error fault, rest⟩
      | ⟨.ok headers, rest⟩ => ⟨.ok ⟨method, path, version, headers⟩, rest⟩

end Request

end Ledboard.Wire
