import Mathlib.Algebra.Group.Nat.Defs
import Mathlib.Data.List.Forall2
import SingleTape.Description.Grammar
import SingleTape.Proofs.Description.Line
import SingleTape.Text.Decimal

/-!
# The format, line by line

What the lines of a text have to be for the text to describe a machine, and what each line says.
Nothing here matches characters one after the other: a line is looked at as a list of words.
-/

namespace SingleTape.Description

def Line.Flush (l : Line) : Prop := ∀ c ∈ l.chars.head?, isBlank c = false

/-- The word, whatever the case of its letters. The word is in lower case. -/
def Spells (chars word : List Char) : Prop := chars.map Char.toLower = word

def IsName (s : String) : Prop := ∀ c ∈ s.toList, isNameChar c = true

structure IsCount (digits : List Char) (n : Nat) : Prop where
  decimal : ∀ c ∈ digits, c.isDigit = true
  value : Text.ofDigits digits = n
  fits : n < 2 ^ 64

def directionLetters : Direction → List Char
  | .left => ['L', 'l']
  | .right => ['R', 'r']

def Marker.char : Marker → Char
  | .accept => '+'
  | .reject => '-'

structure IsHeader (l : Line) (n : Nat) : Prop where
  flush : l.Flush
  words : ∃ w digits, words l.chars = [w, digits] ∧ Spells w Grammar.statesWord ∧ IsCount digits n

/-- A state line. One that is named as an alphabet line begins is its name and nothing else. -/
structure IsState (l : Line) (s : StateLine) : Prop where
  flush : l.Flush
  name : IsName s.name
  words : words l.chars = s.name.toList :: s.marker.toList.map fun m => [m.char]
  bare : Spells s.name.toList Grammar.alphabetWord → l.chars = s.name.toList

structure IsAlphabet (l : Line) (n : Nat) (symbols : List Symbol) : Prop where
  flush : l.Flush
  words : ∃ w digits, words l.chars = w :: digits :: symbols.map String.toList ∧
    Spells w Grammar.alphabetWord ∧ IsCount digits n

structure IsTransition (l : Line) (t : TransitionLine) : Prop where
  flush : l.Flush
  state : IsName t.state
  next : IsName t.next
  words : ∃ d ∈ directionLetters t.direction, words l.chars =
    [t.state.toList, t.read.toList, t.next.toList, t.write.toList, [d]]
  number : t.line = l.number

/-- The lines of the text that are not blank are, in order: a header, the states, the alphabet and
the transitions. -/
structure Describes (text : List Char) (d : Description) : Prop where
  lines : ∃ header states alphabet transitions,
    filledLines text = header :: states ++ alphabet :: transitions ∧
    IsHeader header d.declaredStates ∧
    List.Forall₂ IsState states d.states ∧
    IsAlphabet alphabet d.declaredAlphabet d.alphabet ∧
    List.Forall₂ IsTransition transitions d.transitions

end SingleTape.Description
