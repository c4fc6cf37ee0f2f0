import SingleTape.Description.ParseError
import SingleTape.Description.Violation
import SingleTape.Fault
import SingleTape.Files.Problem

/-!
# Why there is no program
-/

namespace SingleTape

inductive ProgramError where
  /-- The text of the description has so many bytes, which is too many. -/
  | tooLarge (bytes : Nat)
  | malformed (e : Description.ParseError)
  | violation (v : Description.Violation)
  /-- A transition line names a state that no line declares. -/
  | undeclaredState (name : String)
  /-- No state has this role. -/
  | missingState (role : Role)
  | fault (f : Fault)
  /-- There is no built-in program at this position. -/
  | noProgramAt (index : Nat)
  /-- There is no built-in program with this name. -/
  | noProgramNamed (name : String)
  /-- A session asked for a built-in program that is none of these. -/
  | notBuiltIn (name : String) (available : List String)
  | unreadableFile (path : String) (problem : FileProblem)
  | noDirectory (path : String)
  | unreadableDirectory (path : String) (problem : FileProblem)
  /-- The program in a file of a directory cannot be had. -/
  | inDirectory (path : String) (e : ProgramError)
deriving DecidableEq

namespace ProgramError

/-- The most bytes that the text of a description may have. -/
def sizeLimit : Nat := 65536

def kind : ProgramError → FaultKind
  | malformed _ => .parseError
  | fault f => f.kind
  | unreadableFile .. | noDirectory .. | unreadableDirectory .. | inDirectory .. => .fileError
  | _ => .validationError

def message : ProgramError → String
  | tooLarge bytes =>
    FaultKind.validationError.heading ++ "Program is " ++ toString bytes ++ " bytes, the limit is "
      ++ toString sizeLimit
  | malformed e => FaultKind.parseError.heading ++ e.report
  | violation v => FaultKind.validationError.heading ++ v.message
  | undeclaredState name => FaultKind.validationError.heading ++ "Undefined state: " ++ name
  | missingState role =>
    FaultKind.validationError.heading ++ "Missing " ++ role.name ++ " state"
  | fault f => f.message
  | noProgramAt index =>
    FaultKind.validationError.heading ++ "Program index " ++ toString index ++ " out of range"
  | noProgramNamed name =>
    FaultKind.validationError.heading ++ "Program '" ++ name ++ "' not found"
  | notBuiltIn name available =>
    FaultKind.validationError.heading ++ "Unknown program '" ++ name ++ "', available: "
      ++ ", ".intercalate available
  | unreadableFile path problem =>
    FaultKind.fileError.heading ++ "Failed to read file " ++ path ++ ": " ++ problem.message
  | noDirectory path => FaultKind.fileError.heading ++ "Directory " ++ path ++ " does not exist"
  | unreadableDirectory path problem =>
    FaultKind.fileError.heading ++ "Failed to read directory " ++ path ++ ": " ++ problem.message
  | inDirectory path e =>
    FaultKind.fileError.heading ++ "Failed to load program from " ++ path ++ ": " ++ e.message

end ProgramError

end SingleTape
