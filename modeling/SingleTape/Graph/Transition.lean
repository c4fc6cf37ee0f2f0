import SingleTape.Fault

/-!
# Transitions
-/

namespace SingleTape

/-- What to do after reading a symbol: write `write`, move the head in `direction` and go to
`target`. No transition writes the empty text, so no cell ever loses its symbol. -/
structure Transition where
  target : StateId
  write : Symbol
  direction : Direction
  write_ne_empty : write ≠ ""
deriving DecidableEq

def Transition.ofParts (target : StateId) (write : Symbol) (direction : Direction) :
    Except Fault Transition :=
  if h : write = "" then .error .emptyWrite
  else .ok { target, write, direction, write_ne_empty := h }

end SingleTape
