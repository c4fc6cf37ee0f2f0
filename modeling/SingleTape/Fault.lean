import SingleTape.Direction
import SingleTape.Graph.StateId
import SingleTape.Text.Quoted

/-!
# Faults

Why a graph or a machine refuses what is asked of it. A fault names its cause; the words for it
are chosen here and nowhere else. `FaultKind` is the coarser classification under which every
failure of the library is reported.
-/

namespace SingleTape

inductive FaultKind where
  | invalidState
  | invalidTransition
  | invalidTape
  | undefinedTransition
  | parseError
  | validationError
  | fileError
deriving DecidableEq

namespace FaultKind

def name : FaultKind → String
  | invalidState => "InvalidState"
  | invalidTransition => "InvalidTransition"
  | invalidTape => "InvalidTape"
  | undefinedTransition => "UndefinedTransition"
  | parseError => "ParseError"
  | validationError => "ValidationError"
  | fileError => "FileError"

/-- What a message of this kind opens with. An undefined transition needs no heading: its message
is a sentence of its own. -/
def heading : FaultKind → String
  | invalidState => "Invalid state: "
  | invalidTransition => "Invalid transition: "
  | invalidTape => "Invalid tape: "
  | undefinedTransition => ""
  | parseError => "Program parsing error: "
  | validationError => "Program validation error: "
  | fileError => "File error: "

end FaultKind

inductive Role where
  | start
  | accept
  | reject
deriving DecidableEq

def Role.name : Role → String
  | start => "start"
  | accept => "accept"
  | reject => "reject"

inductive Fault where
  /-- The graph has no state with this handle. -/
  | unknownState (id : StateId)
  /-- A transition leads to a handle that the graph does not have. -/
  | unknownTarget (id : StateId)
  /-- A machine was told to start, accept or reject in a state that its graph does not have. -/
  | foreignState (role : Role) (id : StateId)
  /-- A transition would write the empty text. -/
  | emptyWrite
  /-- The content for a tape has the empty text as a symbol. -/
  | emptyTapeSymbol (position : Nat)
  /-- The state has no transition for the symbol it read. -/
  | undefinedTransition (state : String) (symbol : Symbol)
  /-- The symbol of empty cells is the empty text. -/
  | emptyBlank
  /-- The budget does not fit a signed machine word. -/
  | budgetTooLarge (budget : Nat)
deriving DecidableEq

namespace Fault

def kind : Fault → FaultKind
  | unknownState _ | foreignState _ _ => .invalidState
  | unknownTarget _ | emptyWrite => .invalidTransition
  | emptyTapeSymbol _ => .invalidTape
  | undefinedTransition _ _ => .undefinedTransition
  | emptyBlank | budgetTooLarge _ => .validationError

def detail : Fault → String
  | unknownState id => "Unknown state " ++ id.label
  | unknownTarget id => "Target state " ++ id.label ++ " does not exist"
  | foreignState role id => role.name ++ " state " ++ id.label ++ " is not part of the graph"
  | emptyWrite => "Write symbol cannot be empty"
  | emptyTapeSymbol position => "Empty symbol at position " ++ toString position
  | undefinedTransition state symbol =>
    "No transition defined for state " ++ state ++ " and symbol " ++ Text.quote symbol
  | emptyBlank => "Empty symbol cannot be an empty string"
  | budgetTooLarge budget => "Loop budget " ++ toString budget ++ " is too large"

def message (f : Fault) : String := f.kind.heading ++ f.detail

/-- The fault as its kind and the data it carries, the form in which a session reports the fault
that ended it. -/
def inspect : Fault → String
  | undefinedTransition state symbol =>
    "UndefinedTransition \x7b state: " ++ Text.quote state ++ ", symbol: " ++ Text.quote symbol
      ++ " \x7d"
  | f => f.kind.name ++ "(" ++ Text.quote f.detail ++ ")"

end Fault

end SingleTape
