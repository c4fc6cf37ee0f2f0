import SingleTape.Description.Basic
import SingleTape.Text.Quoted

/-!
# What a description has to keep to

The lines of a description have to fit together. `Description.check` looks at one rule after the
other and tells the first that is broken, with everything that breaks it.
-/

namespace SingleTape.Description

inductive Violation where
  /-- The number of state lines is not the one that the header claims. -/
  | stateCount (declared found : Nat)
  | noStates
  /-- Names on more than one state line. -/
  | repeatedStates (names : List String)
  /-- The states marked as accepting, of which there should be one. -/
  | acceptStates (names : List String)
  /-- The states marked as rejecting, of which there should be one. -/
  | rejectStates (names : List String)
  /-- The number of symbols is not the one that the alphabet line claims. -/
  | alphabetSize (declared found : Nat)
  /-- States of transition lines that no line declares. -/
  | undefinedStates (names : List String)
  /-- Symbols of transition lines that are neither in the alphabet nor the blank. -/
  | undefinedSymbols (symbols : List Symbol)
deriving DecidableEq

def Violation.message : Violation → String
  | stateCount declared found =>
    "Expected " ++ toString declared ++ " states but found " ++ toString found
  | noStates => "No states declared"
  | repeatedStates names => "Two or more states share a name: " ++ Text.quoteList names
  | acceptStates names => "There must be exactly one accept state, found " ++ Text.quoteList names
  | rejectStates names => "There must be exactly one reject state, found " ++ Text.quoteList names
  | alphabetSize declared found =>
    "Size of input alphabet (" ++ toString declared ++ ") does not match symbols ("
      ++ toString found ++ ")"
  | undefinedStates names => "Transitions reference undefined states: " ++ Text.quoteList names
  | undefinedSymbols symbols =>
    "Transitions use symbols outside the alphabet: " ++ Text.quoteList symbols

/-- The members of a list that are in `seen` or earlier in the list. -/
def recurring (seen : List String) : List String → List String
  | [] => []
  | a :: l => if a ∈ seen then a :: recurring seen l else recurring (a :: seen) l

def stateNames (d : Description) : List String := d.states.map (·.name)

def repeatedNames (d : Description) : List String := (recurring [] d.stateNames).eraseDups

def marked (d : Description) (m : Marker) : List String :=
  (d.states.filter fun s => s.marker = some m).map (·.name)

def undefinedStates (d : Description) : List String :=
  let names := d.stateNames
  ((d.transitions.flatMap fun t => [t.state, t.next]).filter (· ∉ names)).eraseDups

/-- The symbols of transition lines outside the alphabet and other than the blank, in the order in
which they turn up. -/
def undefinedSymbols (d : Description) (blank : Symbol) : List Symbol :=
  let known := blank :: d.alphabet
  ((d.transitions.flatMap fun t => [t.read, t.write]).filter (· ∉ known)).eraseDups

/-- Nothing, or the first rule that the description breaks. -/
def check (d : Description) (blank : Symbol) : Except Violation Unit := do
  if d.states.length ≠ d.declaredStates then
    throw (.stateCount d.declaredStates d.states.length)
  if d.states.isEmpty then throw .noStates
  if d.repeatedNames ≠ [] then throw (.repeatedStates d.repeatedNames)
  if (d.marked .accept).length ≠ 1 then throw (.acceptStates (d.marked .accept))
  if (d.marked .reject).length ≠ 1 then throw (.rejectStates (d.marked .reject))
  if d.alphabet.length ≠ d.declaredAlphabet then
    throw (.alphabetSize d.declaredAlphabet d.alphabet.length)
  if d.undefinedStates ≠ [] then throw (.undefinedStates d.undefinedStates)
  if d.undefinedSymbols blank ≠ [] then throw (.undefinedSymbols (d.undefinedSymbols blank))

end SingleTape.Description
