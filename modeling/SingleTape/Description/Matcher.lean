import SingleTape.Description.Cursor
import SingleTape.Description.Rule

/-!
# Matchers

A matcher takes a part of a description off the text at a cursor, or fails. Either way it hands on
the record of rules tried in vain. There is no way back into a part that matched: of two ways the
first that matches is taken, and a repetition goes on as long as it can.
-/

namespace SingleTape.Description

/-- How to take a part off the text, with the record of failures threaded through. -/
def Matcher (α : Type) : Type := Cursor → Attempts → Option (α × Cursor) × Attempts

namespace Matcher

variable {α : Type}

instance : Monad Matcher where
  pure x := fun c a => (some (x, c), a)
  bind m f := fun c a =>
    match m c a with
    | (some (x, c), a) => f x c a
    | (none, a) => (none, a)

def fail : Matcher α := fun _ a => (none, a)

def take (f : Cursor → Option Cursor) : Matcher Unit := fun c a => ((f c).map fun c => ((), c), a)

def goTo (f : Cursor → Cursor) : Matcher Unit := fun c a => (some ((), f c), a)

def line : Matcher Nat := fun c a => (some (c.line, c), a)

def notAhead (f : Cursor → Option Cursor) : Matcher Unit := fun c a =>
  (if (f c).isNone then some ((), c) else none, a)

def token (p : Char → Bool) : Matcher Token := fun c a =>
  let (t, c) := c.span p
  (if t.chars.isEmpty then none else some (t, c), a)

def optional (m : Matcher α) : Matcher (Option α) := fun c a =>
  match m c a with
  | (some (x, c), a) => (some (some x, c), a)
  | (none, a) => (some (none, c), a)

/-- Tries up to `n` times, adding to what was matched before. -/
def manyUpTo (m : Matcher α) : Nat → Array α → Matcher (Array α)
  | 0, xs => pure xs
  | n + 1, xs => fun c a =>
    match m c a with
    | (some (x, c), a) => manyUpTo m n (xs.push x) c a
    | (none, a) => (some (xs, c), a)

/-- Matches as often as possible. Each match takes off a character at least, so that there is no
more than one try per character and the one that fails. -/
def many (m : Matcher α) : Matcher (List α) := fun c a =>
  (do return (← manyUpTo m (c.rest.length + 1) #[]).toList : Matcher (List α)) c a

/-- Matches a named rule: if it fails, that is put on record. -/
def rule (r : Rule) (m : Matcher α) : Matcher α := fun c a =>
  match m c a with
  | (some x, after) => (some x, after)
  | (none, after) => (none, after.fail r c.pos (a.countAt c.pos))

end Matcher

end SingleTape.Description
