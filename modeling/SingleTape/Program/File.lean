import SingleTape.Files.Path
import SingleTape.Files.Store
import SingleTape.Program.Load

/-!
# Programs in files

A file holds the text of one description, and the program is named after the file. Of a directory
the files with the extension `tm` are loaded.
-/

namespace SingleTape.Program

variable {m : Type → Type} [Monad m]

def fileExtension : String := "tm"

def loadFile [FileStore m] (path : String) (settings : Settings) :
    m (Except ProgramError (Program × Array Event)) := do
  match ← FileStore.readText path with
  | .ok text => return load (Path.stem path) text settings
  | .error problem => return .error (.unreadableFile path problem)

/-- The program in a file of a directory, with its path. Other things than files with the right
extension give nothing. -/
def loadEntry [DirectoryStore m] (path : String) :
    m (Option (Except ProgramError (String × Program))) := do
  if Path.extension? path ≠ some fileExtension then return none
  if ← DirectoryStore.isDirectory path then return none
  match ← loadFile path {} with
  | .ok (program, _) => return some (.ok (path, program))
  | .error e => return some (.error (.inDirectory path e))

def loadDirectory [DirectoryStore m] (path : String) :
    m (List (Except ProgramError (String × Program))) := do
  unless ← DirectoryStore.hasPath path do return [.error (.noDirectory path)]
  match ← DirectoryStore.list path with
  | .error e => return [.error (.unreadableDirectory path (.os e))]
  | .ok names => return (← names.mapM fun name => loadEntry (Path.join path name)).reduceOption

end SingleTape.Program
