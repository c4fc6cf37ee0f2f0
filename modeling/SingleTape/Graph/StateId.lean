/-!
# State handles
-/

namespace SingleTape

/-- A handle to a state: its position in the order in which a graph's states were added. A handle
says nothing about the graph it came from, so it may be foreign to the one it is used with. -/
structure StateId where
  index : Nat
deriving DecidableEq, Inhabited

def StateId.label (id : StateId) : String := "#" ++ toString id.index

end SingleTape
