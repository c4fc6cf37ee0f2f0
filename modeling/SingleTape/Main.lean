import SingleTape.CommandLine.Session

/-!
# The command line

Runs one session on the files and streams of the operating system.
-/

namespace SingleTape

def OsError.ofError : IO.Error → OsError
  | .noFileOrDirectory .. => notFound
  | .inappropriateType _ code _ => if code = 21 then isADirectory else notADirectory
  | .permissionDenied .. => ⟨13, "PermissionDenied", "Permission denied"⟩
  | e => ⟨5, "Uncategorized", toString e⟩

def attempt {α : Type} (action : IO α) : IO (Except OsError α) := do
  match ← action.toBaseIO with
  | .ok a => return .ok a
  | .error e => return .error (.ofError e)

instance : FileStore IO where
  read path := attempt (IO.FS.readBinFile path)
  create path := attempt (IO.FS.writeBinFile path .empty)
  append path bytes := do
    let handle ← IO.FS.Handle.mk path .append
    handle.write bytes

end SingleTape

def main (arguments : List String) : IO UInt32 := do
  let input := do (← IO.getStdin).readBinToEnd
  let response ← SingleTape.CommandLine.runArguments arguments input
  IO.print response.output
  IO.eprint response.errors
  return response.code.toUInt32
