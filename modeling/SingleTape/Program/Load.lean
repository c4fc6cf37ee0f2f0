import SingleTape.Description.Parse
import SingleTape.Description.Reachability
import SingleTape.Program.Compile

/-!
# Loading

A text becomes a program if it is not too large, has the format of a description, and its lines
fit together. Of several reasons against it the first in this order is told.
-/

namespace SingleTape.Program

def untitled : String := "untitled"

def readDescription (text : String) (blank : Symbol) : Except ProgramError Description := do
  if ProgramError.sizeLimit < text.utf8ByteSize then throw (.tooLarge text.utf8ByteSize)
  let d ← (Description.parse text).mapError .malformed
  (d.check blank).mapError .violation
  return d

def unreachableEvents (name : String) (d : Description) : Array Event :=
  if d.unreachableStates = [] then #[] else #[.unreachable name d.unreachableStates]

def load (name text : String) (settings : Settings) :
    Except ProgramError (Program × Array Event) := do
  let d ← readDescription text settings.blank
  let (program, events) ← compile name d settings
  return (program, unreachableEvents name d ++ events)

end SingleTape.Program
