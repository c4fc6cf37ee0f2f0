import SingleTape.Files.Problem

/-!
# File stores

What the library asks of a place where files are kept. A store may be the one of the operating
system or one in memory, so that all that is done with files can be done with either.
-/

namespace SingleTape

class FileStore (m : Type → Type) where
  /-- All bytes of a file. -/
  read : String → m (Except OsError ByteArray)
  /-- Makes an empty file, also in place of one that is there. -/
  create : String → m (Except OsError Unit)
  /-- Puts bytes at the end of a file that is there. -/
  append : String → ByteArray → m Unit

class DirectoryStore (m : Type → Type) extends FileStore m where
  /-- Whether a path leads anywhere. -/
  hasPath : String → m Bool
  /-- Whether a path leads to a directory. -/
  isDirectory : String → m Bool
  /-- The names in a directory, in no particular order. -/
  list : String → m (Except OsError (List String))

def FileStore.readText {m : Type → Type} [Monad m] [FileStore m] (path : String) :
    m (Except FileProblem String) := do
  match ← FileStore.read path with
  | .error e => return .error (.os e)
  | .ok bytes =>
    match String.fromUTF8? bytes with
    | some text => return .ok text
    | none => return .error .invalidText

end SingleTape
