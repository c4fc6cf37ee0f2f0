import SingleTape.Description.Grammar
import SingleTape.Description.ParseError
import SingleTape.Text.Decimal

/-!
# From text to description

A text is first matched as a whole. Only then are its counts and directions read, in the order in
which they stand in the text.
-/

namespace SingleTape.Description

def readCount (text : List Char) (t : Token) : Except ParseError Nat :=
  match Text.word? t.chars with
  | some n => .ok n
  | none => .error (.ofPosition text t.start (.countTooLarge t.text))

def readDirection (text : List Char) (t : Token) : Except ParseError Direction :=
  match Direction.ofToken? t.text with
  | some d => .ok d
  | none => .error (.ofPosition text t.start (.unknownDirection t.text))

def readTransition (text : List Char) (t : DraftTransition) : Except ParseError TransitionLine := do
  let direction ← readDirection text t.direction
  return { state := t.state, read := t.read, next := t.next, write := t.write, direction,
           line := t.line }

def ofDraft (text : List Char) (d : Draft) : Except ParseError Description := do
  let declaredStates ← readCount text d.stateCount
  let declaredAlphabet ← readCount text d.alphabetCount
  let transitions ← d.transitions.mapM (readTransition text)
  return { declaredStates, states := d.states, declaredAlphabet, alphabet := d.alphabet,
           transitions }

def ofChars (text : List Char) : Except ParseError Description :=
  match draft text with
  | .ok d => ofDraft text d
  | .error attempts => .error (.ofPosition text attempts.far (.expected attempts.failed))

def parse (text : String) : Except ParseError Description := ofChars text.toList

end SingleTape.Description
