import SingleTape.Direction

/-!
# Tapes

A tape is bounded on the left and grows to the right as the head gets there, so that it always
has a cell past the rightmost one visited. A left move in the first cell stays where it is.
-/

namespace SingleTape

/-- A row of cells and the position of the head, which stands on one of them. -/
structure Tape where
  cells : Array Symbol
  head : Nat
  head_lt_size : head < cells.size
deriving DecidableEq

namespace Tape

/-- The content, one symbol per cell, followed by an empty cell, with the head on the first. -/
def ofContent (content : Array Symbol) (blank : Symbol) : Tape where
  cells := content.push blank
  head := 0
  head_lt_size := by simp

def symbol (t : Tape) : Symbol :=
  have := t.head_lt_size
  t.cells[t.head]

def size (t : Tape) : Nat := t.cells.size

def headAfter (head : Nat) : Direction → Nat
  | .left => head - 1
  | .right => head + 1

/-- Writes under the head, adds an empty cell if the head is in the last one, and moves. -/
def write (t : Tape) (s : Symbol) (direction : Direction) (blank : Symbol) : Tape :=
  have h := t.head_lt_size
  let cells := t.cells.set t.head s
  if hgrow : t.head + 1 < cells.size then
    { cells
      head := headAfter t.head direction
      head_lt_size := by cases direction <;> simp only [headAfter] <;> omega }
  else
    { cells := cells.push blank
      head := headAfter t.head direction
      head_lt_size := by
        have : cells.size = t.cells.size := by simp [cells]
        cases direction <;> simp only [headAfter, Array.size_push] <;> omega }

def text (t : Tape) : String := String.join t.cells.toList

/-! ## What the operations do to the head and the cells -/

@[simp] theorem head_ofContent (content : Array Symbol) (blank : Symbol) :
    (ofContent content blank).head = 0 := rfl

@[simp] theorem cells_ofContent (content : Array Symbol) (blank : Symbol) :
    (ofContent content blank).cells = content.push blank := rfl

@[simp] theorem head_write (t : Tape) (s : Symbol) (direction : Direction) (blank : Symbol) :
    (t.write s direction blank).head = headAfter t.head direction := by
  unfold write
  dsimp only
  split <;> rfl

/-- A write changes the cell under the head, and adds a cell just if the head was in the last. -/
theorem cells_write (t : Tape) (s : Symbol) (direction : Direction) (blank : Symbol) :
    (t.write s direction blank).cells =
      if t.head + 1 < t.size then t.cells.set t.head s t.head_lt_size
      else (t.cells.set t.head s t.head_lt_size).push blank := by
  unfold write
  dsimp only
  split
  · rename_i h
    rw [if_pos (by simpa [size] using h)]
  · rename_i h
    rw [if_neg (by simpa [size] using h)]

/-- The tape has as many cells as before, or one more if the head was in the last one. -/
theorem size_write (t : Tape) (s : Symbol) (direction : Direction) (blank : Symbol) :
    (t.write s direction blank).size = max t.size (t.head + 2) := by
  have := t.head_lt_size
  unfold size
  rw [cells_write]
  split <;> simp [size] at * <;> omega

end Tape

end SingleTape
