import SingleTape.Direction

/-!
# Machine descriptions

What a text that describes a machine says, line by line, before anyone has looked whether its
parts fit together. The text is

* a header line `states` with the number of states;
* a line per state: its name, followed by `+` for the accept or `-` for the reject state;
* a line `alphabet` with the number of symbols, followed by the symbols;
* a line per transition: state, symbol read, next state, symbol written, direction.
-/

namespace SingleTape

namespace Description

inductive Marker where
  | accept
  | reject
deriving DecidableEq

def Marker.name : Marker → String
  | accept => "accept"
  | reject => "reject"

structure StateLine where
  name : String
  marker : Option Marker := none
deriving DecidableEq

/-- A line that declares a transition, with its number in the text. -/
structure TransitionLine where
  state : String
  read : Symbol
  next : String
  write : Symbol
  direction : Direction
  line : Nat
deriving DecidableEq

end Description

open Description in
/-- The lines of a text that describes a machine. The two counts are what the text claims. -/
structure Description where
  declaredStates : Nat
  states : List StateLine
  declaredAlphabet : Nat
  alphabet : List Symbol
  transitions : List TransitionLine
deriving DecidableEq

end SingleTape
