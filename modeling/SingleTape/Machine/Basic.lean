import SingleTape.Graph.Basic
import SingleTape.Tape

/-!
# Machines

A machine is a finite control together with a tape, the state it is in, and two counters: the
budget that is left and the steps taken since the tape was last set. Every attempt to take a step
costs one unit of budget, also one that fails because there is no transition for what was read.
-/

namespace SingleTape

/-- The finite control: a graph of states, three of which have a role. -/
structure Control where
  graph : Graph
  start : StateId
  accept : StateId
  reject : StateId
deriving DecidableEq

/-- The symbol of empty cells, and how many steps a run may take before it is rejected. -/
structure Settings where
  blank : Symbol := "_"
  budget : Nat := 100000
deriving DecidableEq, Inhabited

inductive Status where
  | running
  | accepted
  | rejected
deriving DecidableEq

/-- Why a run ended. Unlike `Status` it tells a rejection from an exhausted budget. -/
inductive Outcome where
  | accepted
  | rejected
  | budgetExhausted
deriving DecidableEq

def Status.name : Status → String
  | running => "Running"
  | accepted => "Accepted"
  | rejected => "Rejected"

namespace Outcome

def name : Outcome → String
  | accepted => "Accepted"
  | rejected => "Rejected"
  | budgetExhausted => "BudgetExhausted"

def label : Outcome → String
  | accepted => "accepted"
  | rejected => "rejected"
  | budgetExhausted => "budget exhausted"

def isAccepted (o : Outcome) : Bool := o = accepted

end Outcome

/-- What one step did, seen from before it: the name of the state it left, the symbol it read, where
the head stood, and what the transition taken wrote and where it went. -/
structure Move where
  state : String
  symbol : Symbol
  head : Nat
  write : Symbol
  direction : Direction
deriving DecidableEq

structure Machine where
  control : Control
  settings : Settings
  tape : Tape
  state : StateId
  /-- The steps that may still be attempted; negative once the budget is exhausted. -/
  remaining : Int
  /-- The steps taken since the tape was last set. -/
  steps : Nat
deriving DecidableEq

namespace Control

def handle (c : Control) : Role → StateId
  | .start => c.start
  | .accept => c.accept
  | .reject => c.reject

/-- The first role, in the order accept, reject, start, whose state the graph does not have. -/
def check (c : Control) : Except Fault Unit :=
  match [Role.accept, .reject, .start].find? fun role => c.handle role ∉ c.graph with
  | some role => .error (.foreignState role (c.handle role))
  | none => .ok ()

end Control

namespace Settings

/-- The first budget that does not fit a signed machine word. -/
def budgetLimit : Nat := 0x8000000000000000

/-- Settings are usable if empty cells hold some text and the budget fits. -/
def check (s : Settings) : Except Fault Unit :=
  if s.blank = "" then .error .emptyBlank
  else if s.budget < budgetLimit then .ok ()
  else .error (.budgetTooLarge s.budget)

end Settings

namespace Machine

/-- The content that a word puts on a tape: one symbol per character. -/
def symbolsOfWord (word : String) : Array Symbol := (word.toList.map String.singleton).toArray

def checkContent (content : Array Symbol) : Except Fault Unit :=
  match content.findIdx? fun s => s = "" with
  | some position => .error (.emptyTapeSymbol position)
  | none => .ok ()

/-- The machine that is about to take its first step on a content. -/
def fresh (control : Control) (settings : Settings) (content : Array Symbol) : Machine where
  control
  settings
  tape := .ofContent content settings.blank
  state := control.start
  remaining := settings.budget
  steps := 0

def create (control : Control) (settings : Settings) (content : Array Symbol) :
    Except Fault Machine := do
  control.check
  settings.check
  checkContent content
  return fresh control settings content

def reset (m : Machine) (content : Array Symbol) : Except Fault Machine := do
  checkContent content
  return fresh m.control m.settings content

def isAccepted (m : Machine) : Bool := m.state = m.control.accept

def isRejected (m : Machine) : Bool := m.state = m.control.reject || m.remaining < 0

/-- Acceptance counts before rejection. -/
def status (m : Machine) : Status :=
  if m.isAccepted then .accepted else if m.isRejected then .rejected else .running

def outcome (m : Machine) : Outcome :=
  if m.isAccepted then .accepted
  else if m.state = m.control.reject then .rejected
  else .budgetExhausted

def currentState (m : Machine) : Except Fault State := m.control.graph.state m.state

def charge (m : Machine) : Machine := { m with remaining := m.remaining - 1 }

def entry (m : Machine) (s : Symbol) : Except Fault (State × Transition) := do
  let q ← m.currentState
  let x ← q.lookup s
  return (q, x)

def follow (m : Machine) (x : Transition) : Machine :=
  { m with
    tape := m.tape.write x.write x.direction m.settings.blank
    state := x.target
    steps := m.steps + 1 }

/-- Takes one step as if `s` were under the head. The budget is charged before the transition is
looked up, so a failing step leaves the machine poorer and otherwise as it was. -/
def read (m : Machine) (s : Symbol) : Except Fault Move × Machine :=
  match m.entry s with
  | .ok (q, x) =>
    let move := { state := q.name, symbol := s, head := m.tape.head, write := x.write,
                  direction := x.direction }
    (.ok move, m.charge.follow x)
  | .error fault => (.error fault, m.charge)

def step (m : Machine) : Except Fault Move × Machine := m.read m.tape.symbol

end Machine

end SingleTape
