import SingleTape.Machine.Basic

/-!
# Programs
-/

namespace SingleTape

/-- What a description has been compiled to: all that its machines have in common. -/
structure Program where
  name : String
  control : Control
  alphabet : List Symbol
  settings : Settings
deriving DecidableEq

namespace Program

def machine (p : Program) : Except Fault Machine := Machine.create p.control p.settings #[]

def stateId? (p : Program) (name : String) : Option StateId := p.control.graph.find? name

def stateCount (p : Program) : Nat := p.control.graph.size

def transitionCount (p : Program) : Nat := p.control.graph.transitionCount

end Program

end SingleTape
