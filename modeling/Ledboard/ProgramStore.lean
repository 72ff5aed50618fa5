/-
# The program store

An uploaded program is kept in one file.  An upload empties the file and then appends to it,
piece by piece; nothing looks at the bytes until the next start.
-/
import Ledboard.FileTree

namespace Ledboard

/-- What is done to the program store. -/
inductive StoreOperation where
  | read
  | append
  | truncate
  deriving DecidableEq, Repr

/-- Why the program store could not be used. -/
structure StoreError where
  operation : StoreOperation
  path : String
  cause : FileError
  deriving DecidableEq, Repr

/-- The wording of a failure. -/
def StoreError.message (e : StoreError) : String :=
  "failed to " ++ (match e.operation with
      | .read => "read"
      | .append => "append to"
      | .truncate => "truncate")
    ++ " program store " ++ e.path ++ ": " ++ e.cause.message

/-- The file that programs are kept in. -/
structure ProgramStore where
  path : String
  deriving DecidableEq, Repr

namespace ProgramStore

/-- The failure of an operation on the store. -/
def failure (s : ProgramStore) (operation : StoreOperation) (cause : FileError) : StoreError :=
  ⟨operation, s.path, cause⟩

/-- Empties the store, creating it if need be. -/
def truncate (s : ProgramStore) (files : FileTree) : Except StoreError FileTree :=
  (files.update s.path (fun _ => .empty)).mapError (s.failure .truncate)

/-- Adds bytes at the end of the store, creating it if need be. -/
def append (s : ProgramStore) (files : FileTree) (bytes : List UInt8) :
    Except StoreError FileTree :=
  (files.update s.path (·.append bytes)).mapError (s.failure .append)

/-- The bytes in the store. -/
def load (s : ProgramStore) (files : FileTree) : Except StoreError (List UInt8) :=
  (files.read s.path).mapError (s.failure .read)

end ProgramStore

end Ledboard
