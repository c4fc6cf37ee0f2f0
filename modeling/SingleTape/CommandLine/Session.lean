import SingleTape.Batch
import SingleTape.CommandLine.Options
import SingleTape.Library
import SingleTape.Program.File

/-!
# Sessions

A session loads a program and runs it on words. The program comes first, then the machine, then the
file for the results, which is emptied before any word is read. Whatever was written before
something goes wrong stays written.
-/

namespace SingleTape.CommandLine

structure Response where
  code : Nat := 0
  output : String := ""
  errors : String := ""
deriving DecidableEq

def unlines (lines : Array String) : String :=
  String.join (lines.toList.map (· ++ "\n"))

def errorLine (reason : String) : String := "Error: " ++ reason ++ "\n"

def failure (reason : String) : Response := { code := 1, errors := errorLine reason }

variable {m : Type → Type} [Monad m] [FileStore m]

/-- The program that a session is about. A built-in one takes the number of steps from the options
and keeps its blank. -/
def loadProgram (o : Options) : m (Except ProgramError Program) := do
  match o.program with
  | .file path => return (← Program.loadFile path o.settings).map (·.1)
  | .builtIn name =>
    match Library.programNamed name with
    | .ok p => return .ok { p with settings := { p.settings with budget := o.settings.budget } }
    | .error _ => return .error (.notBuiltIn name Library.names)

def runWords (o : Options) (input : m ByteArray) (machine : Machine) : m Batch.Result := do
  let lines := fun bytes : ByteArray =>
    (Batch.runLines o.debug o.json (Batch.lines bytes.toList) {} machine).1
  match o.words with
  | .single word => return (Batch.runSingle o.debug o.json word machine).1
  | .standardInput => return lines (← input)
  | .file path =>
    match ← FileStore.read path with
    | .ok bytes => return lines bytes
    | .error e => return { problem := some (.file (.os e)) }

def openOutput (o : Options) : m (Except OsError Unit) :=
  match o.output with
  | none => return .ok ()
  | some path => FileStore.create path

def run (o : Options) (input : m ByteArray) : m Response := do
  match ← loadProgram o with
  | .error e => return failure e.message
  | .ok program =>
    match program.machine with
    | .error fault => return failure fault.inspect
    | .ok machine =>
      match ← openOutput o with
      | .error e => return failure (FileProblem.os e).inspect
      | .ok () =>
        let result ← runWords o input machine
        let written := unlines result.written
        let output ← match o.output with
          | none => pure written
          | some path => do
            FileStore.append path written.toUTF8
            pure ""
        let shown := unlines result.shown
        match result.problem with
        | none => return { output, errors := shown }
        | some problem =>
          return { code := 1, output, errors := shown ++ errorLine problem.inspect }

def misuse : Response where
  code := 2
  errors := "Usage: (-i FILE | -p NAME) [-w FILE | -c WORD] [-o FILE] [-m STEPS] [-e SYMBOL] "
    ++ "[-d] [--json]\n"

def runArguments (arguments : List String) (input : m ByteArray) : m Response :=
  match Options.ofArguments arguments with
  | some o => run o input
  | none => return misuse

end SingleTape.CommandLine
