/-!
# Symbols and head moves

What stands in a tape cell, and the two ways the head can go after writing one.
-/

namespace SingleTape

/-- Symbols are opaque tokens: machines only compare them, and one may span several characters. -/
abbrev Symbol := String

inductive Direction where
  | left
  | right
deriving DecidableEq, Inhabited

namespace Direction

/-- The direction that a token of a machine description stands for. Case does not matter. -/
def ofToken? (token : String) : Option Direction :=
  if token = "L" ∨ token = "l" then some .left
  else if token = "R" ∨ token = "r" then some .right
  else none

def letter : Direction → String
  | .left => "L"
  | .right => "R"

def name : Direction → String
  | .left => "Left"
  | .right => "Right"

end Direction

end SingleTape
