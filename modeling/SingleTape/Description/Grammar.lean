import SingleTape.Description.Basic
import SingleTape.Description.Matcher

/-!
# The format of descriptions

The named rules, each as a matcher, down from the program to its words. What matches is a draft:
counts and directions are still pieces of the text, and are read in a second pass.
-/

namespace SingleTape.Description

structure DraftTransition where
  line : Nat
  state : String
  read : Symbol
  next : String
  write : Symbol
  direction : Token
deriving DecidableEq

structure Draft where
  stateCount : Token
  states : List StateLine
  alphabetCount : Token
  alphabet : List Symbol
  transitions : List DraftTransition
deriving DecidableEq

namespace Grammar

open Matcher

def statesWord : List Char := ['s', 't', 'a', 't', 'e', 's']

def alphabetWord : List Char := ['a', 'l', 'p', 'h', 'a', 'b', 'e', 't']

def gap : Matcher Unit := take Cursor.blanks?

def lineEnd : Matcher Unit := take Cursor.lineEnd?

def emptyLines : Matcher Unit := goTo Cursor.skipEmptyLines

def word (w : List Char) : Matcher Unit := take fun c => c.word? w

def name : Matcher String := rule .name do return (← token isNameChar).text

def symbol : Matcher Symbol := rule .symbol do return (← token isVisible).text

def count : Matcher Token := rule .count (token Char.isDigit)

def direction : Matcher Token := rule .direction (token isVisible)

def marker : Matcher Marker := rule .marker fun c a =>
  match c.rest with
  | '+' :: rest => (some (.accept, c.skip ['+'] rest), a)
  | '-' :: rest => (some (.reject, c.skip ['-'] rest), a)
  | _ => (none, a)

def endOfText : Matcher Unit := rule .endOfText fun c a =>
  (if c.rest.isEmpty then some ((), c) else none, a)

def header : Matcher Token := rule .header do
  word statesWord
  gap
  count

/-- The place after the word that begins an alphabet line and the blanks behind it. -/
def alphabetStart? (c : Cursor) : Option Cursor := c.word? alphabetWord >>= Cursor.blanks?

/-- A state line, which must not look like the beginning of an alphabet line. -/
def state : Matcher StateLine := rule .state do
  notAhead alphabetStart?
  let name ← name
  let marker ← optional do gap; marker
  return { name, marker }

def alphabet : Matcher (Token × List Symbol) := rule .alphabet do
  word alphabetWord
  gap
  let n ← count
  let symbols ← many do gap; symbol
  return (n, symbols)

def transition : Matcher DraftTransition := rule .transition do
  let line ← line
  let state ← name
  gap
  let read ← symbol
  gap
  let next ← name
  gap
  let write ← symbol
  gap
  let direction ← direction
  return { line, state, read, next, write, direction }

def program : Matcher Draft := rule .program do
  emptyLines
  let stateCount ← header
  lineEnd
  let states ← many do
    emptyLines
    let s ← state
    lineEnd
    return s
  emptyLines
  let (alphabetCount, alphabet) ← alphabet
  let transitions ← many do
    lineEnd
    emptyLines
    transition
  goTo Cursor.skipSpace
  endOfText
  return { stateCount, states, alphabetCount, alphabet, transitions }

end Grammar

def draft (text : List Char) : Except Attempts Draft :=
  match Grammar.program { rest := text } {} with
  | (some (d, _), _) => .ok d
  | (none, attempts) => .error attempts

end SingleTape.Description
