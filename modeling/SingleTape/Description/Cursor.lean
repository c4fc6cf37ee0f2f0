/-!
# Places in a text

A cursor is a place in the text of a description: how many characters and lines are before it, and
what is still to come. The functions here take the smallest pieces of the format off the text:
blanks, line ends, words. None of them is a named rule, so none leaves a trace when it fails.
-/

namespace SingleTape.Description

/-- A place in a text. Lines are counted from one, and only a line feed begins a new one. -/
structure Cursor where
  pos : Nat := 0
  line : Nat := 1
  rest : List Char
deriving DecidableEq

structure Token where
  start : Nat
  chars : List Char
deriving DecidableEq

def Token.text (t : Token) : String := String.ofList t.chars

def isBlank (c : Char) : Bool := c = ' ' || c = '\t'

def isLineBreak (c : Char) : Bool := c = '\n' || c = '\r'

def isVisible (c : Char) : Bool := !isBlank c && !isLineBreak c

/-- The characters of state names: ASCII letters, ASCII digits and the underscore. -/
def isNameChar (c : Char) : Bool := c.isAlphanum || c = '_'

namespace Cursor

def skip (c : Cursor) (chars : List Char) (rest : List Char) : Cursor where
  pos := c.pos + chars.length
  line := c.line + chars.count '\n'
  rest

def span (p : Char → Bool) (c : Cursor) : Token × Cursor :=
  let chars := c.rest.takeWhile p
  ({ start := c.pos, chars }, c.skip chars (c.rest.dropWhile p))

def skipBlanks (c : Cursor) : Cursor := (c.span isBlank).2

def blanks? (c : Cursor) : Option Cursor :=
  match c.span isBlank with
  | ({ chars := [], .. }, _) => none
  | (_, c) => some c

/-- The place after a line break, of which a carriage return with a line feed is one. -/
def lineBreak? (c : Cursor) : Option Cursor :=
  match c.rest with
  | '\r' :: '\n' :: rest => some (c.skip ['\r', '\n'] rest)
  | '\r' :: rest => some (c.skip ['\r'] rest)
  | '\n' :: rest => some (c.skip ['\n'] rest)
  | _ => none

def lineEnd? (c : Cursor) : Option Cursor := c.skipBlanks.lineBreak?

/-- The place after a word, whatever the case of its ASCII letters. The word is in lower case. -/
def word? (c : Cursor) (word : List Char) : Option Cursor :=
  let chars := c.rest.take word.length
  if chars.map Char.toLower = word then some (c.skip chars (c.rest.drop word.length)) else none

/-- A line break takes at least one character of the text. -/
theorem length_rest_lineBreak? {c d : Cursor} (h : c.lineBreak? = some d) :
    d.rest.length < c.rest.length := by
  unfold lineBreak? at h
  split at h
  case h_1 rest heq =>
    cases h
    rw [heq]
    exact Nat.lt_succ_of_lt (Nat.lt_succ_self _)
  case h_2 rest _ heq =>
    cases h
    rw [heq]
    exact Nat.lt_succ_self _
  case h_3 rest heq =>
    cases h
    rw [heq]
    exact Nat.lt_succ_self _
  case h_4 => cases h

/-- A line end takes at least one character of the text, so the rows of lines come to an end. -/
theorem length_rest_lineEnd? {c d : Cursor} (h : c.lineEnd? = some d) :
    d.rest.length < c.rest.length :=
  Nat.lt_of_lt_of_le (length_rest_lineBreak? h) (List.dropWhile_suffix isBlank).length_le

/-- The place after all empty lines that come next; an empty line may hold blanks. -/
def skipEmptyLines (c : Cursor) : Cursor :=
  match h : c.lineEnd? with
  | some d =>
    have := length_rest_lineEnd? h
    skipEmptyLines d
  | none => c
termination_by c.rest.length

def skipSpace (c : Cursor) : Cursor := (c.span fun x => !isVisible x).2

end Cursor

end SingleTape.Description
