/-
# Files

The board keeps its files in a tree of directories.  A path is a sequence of names separated by
slashes; empty names and `.` stay where they are and `..` goes up.  Everything but the last name
of a path has to be a directory.

A path that starts with a slash starts at the root, any other one at the working directory.  The
tree knows nothing of what else lies outside the working directory, and takes it to be empty.

Names are looked up one by one, and the first that fails decides: it is missing, it is too long,
it is a file where a directory is needed, or a directory where a file is needed.  A slash behind
the last name asks for a directory.
-/

namespace Ledboard

/-- Why a file cannot be reached. -/
inductive FileError where
  | notFound
  | isADirectory
  | notADirectory
  /-- a name of the path, or the path as a whole, has too many bytes -/
  | nameTooLong
  /-- the path holds the character that ends a path -/
  | endInside
  deriving DecidableEq, Repr

/-- The wording of a reason, with its number where the system gives one. -/
def FileError.message : FileError → String
  | .notFound => "No such file or directory (os error 2)"
  | .isADirectory => "Is a directory (os error 21)"
  | .notADirectory => "Not a directory (os error 20)"
  | .nameTooLong => "File name too long (os error 36)"
  | .endInside => "file name contained an unexpected NUL byte"

/-- The content of a file.  Its bytes are kept last byte first, so that what is added at the end
costs nothing for what is there. -/
structure Content where
  reversed : List UInt8
  deriving DecidableEq, Repr

namespace Content

/-- No bytes. -/
def empty : Content := ⟨[]⟩

/-- The content with the given bytes. -/
def ofList (bytes : List UInt8) : Content := ⟨bytes.reverse⟩

/-- The bytes of a content. -/
def toList (c : Content) : List UInt8 := c.reversed.reverse

/-- Adds bytes at the end. -/
def append (c : Content) (bytes : List UInt8) : Content := ⟨bytes.reverse ++ c.reversed⟩

@[simp] theorem toList_empty : empty.toList = [] := rfl

@[simp] theorem toList_ofList (bytes : List UInt8) : (ofList bytes).toList = bytes := by
  simp [ofList, toList]

@[simp] theorem toList_append (c : Content) (bytes : List UInt8) :
    (c.append bytes).toList = c.toList ++ bytes := by
  simp [append, toList]

end Content

/-- What a place of the tree holds. -/
inductive Node where
  | file (content : Content)
  | directory
  deriving DecidableEq, Repr

/-- A place in the tree: the names from the working directory down.  A place outside of it starts
with names `..`, one for each level up, or with the name `/` for the root of all paths. -/
abbrev Place := List String

namespace Place

/-- The root of all paths. -/
def root : Place := ["/"]

/-- Whether a place is the working directory, a directory above it, or the root.  These always
exist. -/
def isFixed (p : Place) : Bool := p == root || p.all (· == "..")

/-- The directory that a place lies in.  The root lies in itself. -/
def parent (p : Place) : Place :=
  if p == root then p
  else if p.isFixed then p ++ [".."]
  else p.dropLast

end Place

/-- What stands at the places of the tree.  Fixed directories are not listed. -/
structure FileTree where
  nodes : List (Place × Node)
  deriving DecidableEq, Repr

namespace FileTree

/-- The tree without files. -/
def empty : FileTree := ⟨[]⟩

/-- What a place holds. -/
def node? (t : FileTree) (place : Place) : Option Node :=
  if place.isFixed then some .directory else t.nodes.lookup place

/-- Puts something at a place, instead of what was there. -/
def set (t : FileTree) (place : Place) (node : Node) : FileTree :=
  ⟨go t.nodes⟩
where
  /-- The same among the listed places. -/
  go : List (Place × Node) → List (Place × Node)
    | [] => [(place, node)]
    | (p, n) :: rest => if p = place then (p, node) :: rest else (p, n) :: go rest

/-! ## 1. Paths -/

/-- How many bytes a name may have. -/
def nameLimit : Nat := 255

/-- How many bytes a path may have. -/
def pathLimit : Nat := 4095

/-- The names of a path. -/
def names (path : String) : List String :=
  ((path.toList.splitOn '/').filter (fun name => !name.isEmpty)).map String.ofList

/-- The place at which a path starts. -/
def origin (path : String) : Place :=
  if path.toList.head? == some '/' then Place.root else []

/-- Whether a path ends with a slash. -/
def asksDirectory (path : String) : Bool := path.toList.getLast? == some '/'

/-- Looks up what a place holds.  A name that is too long cannot be looked up. -/
def find (t : FileTree) (place : Place) : Except FileError (Option Node) :=
  match place.getLast? with
  | none => .ok (t.node? place)
  | some name =>
    if nameLimit < name.utf8ByteSize then .error .nameTooLong else .ok (t.node? place)

/-- Follows names from a directory on. -/
def walk (t : FileTree) (dir : Place) : List String → Except FileError Place
  | [] => .ok dir
  | name :: rest =>
    if name = "." then walk t dir rest
    else if name = ".." then walk t dir.parent rest
    else
      let place := dir ++ [name]
      if rest.isEmpty then .ok place
      else
        match t.find place with
        | .error cause => .error cause
        | .ok none => .error .notFound
        | .ok (some (.file _)) => .error .notADirectory
        | .ok (some .directory) => walk t place rest

/-- The place that a path leads to; whether something stands there is left open. -/
def place (t : FileTree) (path : String) : Except FileError Place :=
  if path.toList.contains '\x00' then .error .endInside
  else if path.isEmpty then .error .notFound
  else if pathLimit < path.utf8ByteSize then .error .nameTooLong
  else t.walk (origin path) (names path)

/-! ## 2. Access -/

/-- The content of a file. -/
def read (t : FileTree) (path : String) : Except FileError (List UInt8) := do
  let place ← t.place path
  match ← t.find place with
  | none => .error .notFound
  | some .directory => .error .isADirectory
  | some (.file content) =>
    if asksDirectory path then .error .notADirectory else .ok content.toList

/-- Opens a file for writing, creating it if need be: its place and its content. -/
def openFile (t : FileTree) (path : String) : Except FileError (Place × Content) := do
  let place ← t.place path
  if asksDirectory path then .error .isADirectory
  else
    match ← t.find place with
    | none => .ok (place, .empty)
    | some .directory => .error .isADirectory
    | some (.file content) => .ok (place, content)

/-- Changes the content of a file, creating it if need be. -/
def update (t : FileTree) (path : String) (change : Content → Content) :
    Except FileError FileTree := do
  let (place, content) ← t.openFile path
  return t.set place (.file (change content))

/-! ## 3. Setting up -/

/-- The place that a path leads to if all directories on its way exist. -/
def destination (path : String) : Place :=
  (names path).foldl
    (fun place name =>
      if name = "." then place else if name = ".." then place.parent else place ++ [name])
    (origin path)

/-- Makes the directories above a place. -/
def makeParents (t : FileTree) (dir : Place) : List String → FileTree
  | [] => t
  | [_] => t
  | name :: rest =>
    let next : Place := dir ++ [name]
    makeParents (if next.isFixed then t else t.set next .directory) next rest

/-- Sets up a file with all directories above it, or an empty directory if the path ends with a
slash. -/
def put (t : FileTree) (path : String) (bytes : List UInt8) : FileTree :=
  let place := destination path
  if place.isFixed then t
  else
    (t.makeParents [] place).set place
      (if asksDirectory path then .directory else .file (.ofList bytes))

/-- The extension of a path: what stands behind the last dot of its last name, unless that dot
is the first character of the name. -/
def extension? (path : String) : Option String :=
  match ((names path).filter (· != ".")).getLast? with
  | none => none
  | some name =>
    if name = ".." then none
    else
      let ext := (name.toList.reverse.takeWhile (· != '.')).reverse
      let stem := name.toList.take (name.toList.length - ext.length - 1)
      if ext.length < name.toList.length ∧ !stem.isEmpty then some (String.ofList ext) else none

end FileTree

end Ledboard
