import SingleTape.Files.Problem
import SingleTape.Json.Codec
import SingleTape.Machine.Run

/-!
# Batches of words

One machine is run on word after word. Each word has a report, and a batch ends at the first word
that cannot be run or the first line that is no text; what was reported before stays reported.
-/

namespace SingleTape

structure Report where
  word : String
  accepted : Bool
  outcome : Outcome
  steps : Nat
deriving DecidableEq

inductive BatchProblem where
  | fault (f : Fault)
  | file (p : FileProblem)
deriving DecidableEq

def BatchProblem.inspect : BatchProblem → String
  | fault f => f.inspect
  | file p => p.inspect

namespace Report

def toJson (r : Report) : String :=
  Json.object [("word", Json.string r.word), ("accepted", Json.bool r.accepted),
    ("outcome", r.outcome.toJson), ("steps", Json.number r.steps)]

def line (r : Report) (json : Bool) : String :=
  if json then r.toJson else r.word ++ ", " ++ Json.bool r.accepted

def verdict (r : Report) (json : Bool) : String :=
  if json then r.toJson else Json.bool r.accepted

end Report

namespace Batch

def stateLine (m : Machine) : Except Fault String := do
  let q ← m.currentState
  return "Step: " ++ toString m.steps ++ ", State: " ++ q.name ++ ", Head: "
    ++ toString m.tape.head ++ ", Tape: " ++ " ".intercalate m.tape.cells.toList

/-- Takes up to `n` steps while the machine is running, showing it after each. What ends it early is
a step that fails or a machine that cannot be shown. -/
def showUpTo : Nat → Array String → Machine → Except Fault Unit × Array String × Machine
  | 0, shown, m => (.ok (), shown, m)
  | n + 1, shown, m =>
    if m.status = .running then
      match m.step with
      | (.error fault, m) => (.error fault, shown, m)
      | (.ok _, m) =>
        match stateLine m with
        | .error fault => (.error fault, shown, m)
        | .ok line => showUpTo n (shown.push line) m
    else (.ok (), shown, m)

/-- Takes steps until the machine stops, showing it before the first step and after each. -/
def showSteps (shown : Array String) (m : Machine) : Except Fault Unit × Array String × Machine :=
  match stateLine m with
  | .error fault => (.error fault, shown, m)
  | .ok line => showUpTo m.stepBound (shown.push line) m

/-- Runs a machine on a word. If the run is to be shown, its steps are taken one by one before, so
that there is nothing left to do for the run. -/
def runWord (visible : Bool) (word : String) (shown : Array String) (m : Machine) :
    Except Fault Report × Array String × Machine :=
  match m.reset (Machine.symbolsOfWord word) with
  | .error fault => (.error fault, shown, m)
  | .ok m =>
    match if visible then showSteps shown m else (.ok (), shown, m) with
    | (.error fault, shown, m) => (.error fault, shown, m)
    | (.ok (), shown, m) =>
      let (result, m) := m.run
      (result.map fun outcome =>
        { word, accepted := outcome.isAccepted, outcome, steps := m.steps }, shown, m)

structure Result where
  written : Array String := #[]
  shown : Array String := #[]
  problem : Option BatchProblem := none

def lineFeed : UInt8 := 10

def carriageReturn : UInt8 := 13

/-- The lines of a sequence of bytes, behind the reverse of the bytes of an unfinished line. After
the last line feed there is a line only if it is not empty. -/
def linesFrom (unfinished : List UInt8) : List UInt8 → List (List UInt8)
  | [] => if unfinished = [] then [] else [unfinished.reverse]
  | b :: bytes =>
    if b = lineFeed then unfinished.reverse :: linesFrom [] bytes
    else linesFrom (b :: unfinished) bytes

def lines (bytes : List UInt8) : List (List UInt8) := linesFrom [] bytes

/-- The word on a line, without the carriage returns at its end, if the line is text. -/
def wordOfLine? (line : List UInt8) : Option String :=
  String.fromUTF8? ⟨(line.reverse.dropWhile (· = carriageReturn)).reverse.toArray⟩

def runLines (visible json : Bool) : List (List UInt8) → Result → Machine → Result × Machine
  | [], result, m => (result, m)
  | line :: lines, result, m =>
    match wordOfLine? line with
    | none => ({ result with problem := some (.file .invalidText) }, m)
    | some word =>
      match runWord visible word result.shown m with
      | (.ok report, shown, m) =>
        runLines visible json lines
          { result with written := result.written.push (report.line json), shown } m
      | (.error fault, shown, m) => ({ result with shown, problem := some (.fault fault) }, m)

def runSingle (visible json : Bool) (word : String) (m : Machine) : Result × Machine :=
  match runWord visible word #[] m with
  | (.ok report, shown, m) => ({ written := #[report.verdict json], shown }, m)
  | (.error fault, shown, m) => ({ shown, problem := some (.fault fault) }, m)

end Batch

end SingleTape
