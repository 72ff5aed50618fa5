/-
# Header fields

Request headers are an ordered multi-map.  Keys are equal if they differ in the case of ASCII
letters only; an entry keeps the spelling and the place of its first occurrence and collects
the values in order.
-/
import Ledboard.Text.Blank
import Ledboard.Wire.Fault

namespace Ledboard.Wire

/-- The entries of a header map, in order of first occurrence. -/
structure Headers where
  entries : List (String × Array String)
  deriving DecidableEq, Repr

/-- A key without the case of its ASCII letters. -/
def foldCase (key : String) : List Char := key.toList.map Char.toLower

/-- Whether two keys are the same. -/
def sameKey (a b : String) : Bool := foldCase a == foldCase b

namespace Headers

/-- The map without entries. -/
def empty : Headers := ⟨[]⟩

/-- Adds a value to the entry of a key, or a new entry at the end. -/
def addTo (key value : String) : List (String × Array String) → List (String × Array String)
  | [] => [(key, #[value])]
  | (k, values) :: rest =>
    if sameKey k key then (k, values.push value) :: rest
    else (k, values) :: addTo key value rest

/-- Adds a value under a key. -/
def append (h : Headers) (key value : String) : Headers := ⟨addTo key value h.entries⟩

/-- All values under a key. -/
def get? (h : Headers) (key : String) : Option (List String) :=
  (h.entries.find? (fun entry => sameKey entry.1 key)).map (fun entry => entry.2.toList)

/-- The first value under a key. -/
def first? (h : Headers) (key : String) : Option String := (h.get? key).bind List.head?

/-- How many different keys there are. -/
def size (h : Headers) : Nat := h.entries.length

/-- The key and the value of a header line: what stands before the first colon, and what stands
behind it without white space at its ends.  The key must not be empty and holds no white space. -/
def field? (line : List Char) : Option (String × String) :=
  let key := line.takeWhile (· != ':')
  match line.drop key.length with
  | [] => none
  | _ :: value =>
    if key.isEmpty || key.any Text.isBlank then none
    else some (String.ofList key, String.ofList (Text.trim value))

/-- Adds the field of a header line. -/
def addLine (h : Headers) (line : String) : Except Fault Headers :=
  match field? line.toList with
  | none => .error (.malformedHeader line)
  | some (key, value) => .ok (h.append key value)

/-- An entry in descriptions. -/
def describeEntry (entry : String × Array String) : String :=
  "(" ++ Text.quoted entry.1 ++ ", [" ++ ", ".intercalate (entry.2.toList.map Text.quoted) ++ "])"

/-- The short form of a header map. -/
def describe (h : Headers) : String :=
  "Headers \x7b entries: [" ++ ", ".intercalate (h.entries.map describeEntry) ++ "] \x7d"

end Headers

end Ledboard.Wire
