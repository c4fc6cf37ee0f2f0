/-!
# Rules of the description format, and where they failed

The parts of a description have names, under which a text that does not match is reported. While
a text is matched, `Attempts` keeps the furthest place where such a part was tried in vain and
which ones were. A place reached is never forgotten, also when matching goes back and another way
then succeeds.
-/

namespace SingleTape.Description

inductive Rule where
  | endOfText
  | name
  | symbol
  | count
  | marker
  | direction
  | header
  | state
  | alphabet
  | transition
  | program
deriving DecidableEq

namespace Rule

def all : List Rule :=
  [endOfText, name, symbol, count, marker, direction, header, state, alphabet, transition, program]

def label : Rule → String
  | endOfText => "EOI"
  | name => "name"
  | symbol => "symbol"
  | count => "count"
  | marker => "marker"
  | direction => "direction"
  | header => "header"
  | state => "state"
  | alphabet => "alphabet"
  | transition => "transition"
  | program => "program"

end Rule

/-- The furthest position at which a rule was tried in vain, and the rules that were tried there,
in the order of their failing. -/
structure Attempts where
  far : Nat := 0
  failed : List Rule := []
deriving DecidableEq

namespace Attempts

def countAt (a : Attempts) (pos : Nat) : Nat := if a.far = pos then a.failed.length else 0

/-- Notes that rule `r` failed at `pos`, where `before` failures were kept when it was entered. A
rule that failed because of just one rule inside it, at its own beginning, is represented by that
one; otherwise it stands for all that failed inside it there. -/
def fail (a : Attempts) (r : Rule) (pos before : Nat) : Attempts :=
  if a.countAt pos = before + 1 then a
  else if a.far = pos then { a with failed := a.failed.take before ++ [r] }
  else if a.far < pos then { far := pos, failed := [r] }
  else a

end Attempts

end SingleTape.Description
