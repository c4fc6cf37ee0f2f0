import Mathlib.Logic.Function.Basic
import SingleTape.Tape

/-!
# Padded tapes

A tape stands for the first cells of an infinite one, on which all other cells are empty. A write to
the tape is a write to one cell of the infinite tape, also where the tape grows.
-/

namespace SingleTape.Tape

def padded (t : Tape) (blank : Symbol) (i : Nat) : Symbol := t.cells.getD i blank

/-- The last cell of the tape is empty. -/
def EndsIn (t : Tape) (blank : Symbol) : Prop := t.cells[t.size - 1]? = some blank

theorem padded_head (t : Tape) (blank : Symbol) : t.padded blank t.head = t.symbol := by
  have := t.head_lt_size
  unfold padded symbol
  rw [Array.getD_eq_getD_getElem?, Array.getElem?_eq_getElem this, Option.getD_some]

theorem eq_of_padded_eq {t : Tape} {blank s : Symbol} (h : ∀ i, t.padded blank i = s) {x : Symbol}
    (hx : x ∈ t.cells) : x = s := by
  obtain ⟨i, hi, rfl⟩ := Array.mem_iff_getElem.mp hx
  rw [← h i, padded, Array.getD_eq_getD_getElem?, Array.getElem?_eq_getElem hi, Option.getD_some]

/-- A fresh tape is its content with empty cells behind it. -/
theorem padded_ofContent (content : Array Symbol) (blank : Symbol) (i : Nat) :
    (ofContent content blank).padded blank i = content.getD i blank := by
  unfold padded
  rw [cells_ofContent, Array.getD_eq_getD_getElem?, Array.getD_eq_getD_getElem?,
    Array.getElem?_push]
  split
  · rename_i h
    rw [h, Array.getElem?_eq_none (Nat.le_refl _)]
    rfl
  · rfl

/-- A write changes the cell under the head and no other, wherever the head goes then. -/
theorem padded_write (t : Tape) (s : Symbol) (direction : Direction) (blank : Symbol) :
    (t.write s direction blank).padded blank = Function.update (t.padded blank) t.head s := by
  have hhead := t.head_lt_size
  funext i
  unfold padded
  rw [cells_write, Function.update_apply]
  by_cases hgrow : t.head + 1 < t.size
  · rw [if_pos hgrow, Array.getD_eq_getD_getElem?, Array.getElem?_set]
    by_cases hi : i = t.head
    · rw [if_pos hi.symm, if_pos hi]
      rfl
    · rw [if_neg (Ne.symm hi), if_neg hi, Array.getD_eq_getD_getElem?]
  · rw [if_neg hgrow, Array.getD_eq_getD_getElem?, Array.getElem?_push, Array.size_set]
    by_cases hi : i = t.head
    · rw [if_neg (by omega), if_pos hi, hi, Array.getElem?_set_self]
      rfl
    · rw [if_neg hi, Array.getElem?_set_ne hhead (Ne.symm hi), Array.getD_eq_getD_getElem?]
      split
      · rename_i hsize
        -- the new cell was empty before it was there
        rw [hsize, Array.getElem?_eq_none (Nat.le_refl _)]
        rfl
      · rfl

theorem endsIn_ofContent (content : Array Symbol) (blank : Symbol) :
    (ofContent content blank).EndsIn blank := by
  unfold EndsIn size
  rw [cells_ofContent, Array.size_push, Nat.add_sub_cancel, Array.getElem?_push, if_pos rfl]

/-- The last cell stays empty: it is written to only if a new one is added behind it. -/
theorem EndsIn.write {t : Tape} {blank : Symbol} (h : t.EndsIn blank) (s : Symbol)
    (direction : Direction) : (t.write s direction blank).EndsIn blank := by
  have hhead := t.head_lt_size
  unfold EndsIn at h ⊢
  rw [cells_write]
  by_cases hgrow : t.head + 1 < t.size
  · have hsize : (t.write s direction blank).size = t.size := by rw [size_write]; omega
    rw [if_pos hgrow, hsize, Array.getElem?_set_ne hhead (by omega)]
    exact h
  · have hsize : (t.write s direction blank).size = t.cells.size + 1 := by
      rw [size_write]
      unfold size at hgrow ⊢
      omega
    rw [if_neg hgrow, hsize, Nat.add_sub_cancel, Array.getElem?_push, Array.size_set, if_pos rfl]

/-- Tapes are the same with the same cells and the head at the same one. -/
theorem ext_cells {t u : Tape} (hcells : t.cells = u.cells) (hhead : t.head = u.head) : t = u := by
  cases t
  cases u
  cases hcells
  cases hhead
  rfl

/-- Tapes that look alike when padded, and are equally long, are the same. -/
theorem ext_padded {t u : Tape} (blank : Symbol) (hhead : t.head = u.head) (hsize : t.size = u.size)
    (h : ∀ i, t.padded blank i = u.padded blank i) : t = u := by
  have hcells : t.cells = u.cells := by
    apply Array.ext hsize
    intro i hi hj
    have := h i
    unfold padded at this
    rw [Array.getD_eq_getD_getElem?, Array.getD_eq_getD_getElem?, Array.getElem?_eq_getElem hi,
      Array.getElem?_eq_getElem hj] at this
    exact this
  exact ext_cells hcells hhead

end SingleTape.Tape
