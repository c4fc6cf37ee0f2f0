import SingleTape.Description.Basic
import SingleTape.Event
import SingleTape.Program.Basic
import SingleTape.Program.Error

/-!
# From description to program

The states of a description become the states of a graph in the order of their lines, so the n-th
declared state has the n-th handle. Then each transition line is stored. A line for a state and a
symbol that have a transition already replaces it, and an observer is told.
-/

namespace SingleTape

open Description (Marker StateLine TransitionLine)

namespace Program

def statesGraph (states : List StateLine) : Graph :=
  states.foldl (fun g s => (g.addState s.name).2) ∅

def handleOf (g : Graph) (name : String) : Except ProgramError StateId :=
  match g.find? name with
  | some id => .ok id
  | none => .error (.undeclaredState name)

def storeLine (name : String) (built : Graph × Array Event) (t : TransitionLine) :
    Except ProgramError (Graph × Array Event) := do
  let (g, events) := built
  let source ← handleOf g t.state
  let target ← handleOf g t.next
  let q ← (g.state source).mapError .fault
  let events :=
    if q.table.contains t.read then events.push (.replaced name t.state t.read t.line) else events
  let g ← (g.connect source t.read target t.write t.direction).mapError .fault
  return (g, events)

def firstState (states : List StateLine) (p : StateLine → Bool) (role : Role) :
    Except ProgramError StateId :=
  match states.findIdx? p with
  | some i => .ok ⟨i⟩
  | none => .error (.missingState role)

/-- The declared alphabet, with the blank at its end unless it is declared. -/
def fullAlphabet (d : Description) (blank : Symbol) : List Symbol :=
  if blank ∈ d.alphabet then d.alphabet else d.alphabet ++ [blank]

def compile (name : String) (d : Description) (settings : Settings) :
    Except ProgramError (Program × Array Event) := do
  let (graph, events) ← d.transitions.foldlM (storeLine name) (statesGraph d.states, #[])
  let start ← firstState d.states (fun _ => true) .start
  let accept ← firstState d.states (·.marker = some .accept) .accept
  let reject ← firstState d.states (·.marker = some .reject) .reject
  let program : Program :=
    { name, control := { graph, start, accept, reject },
      alphabet := fullAlphabet d settings.blank, settings }
  return (program, events.push (.compiled name program.stateCount program.transitionCount))

end Program

end SingleTape
