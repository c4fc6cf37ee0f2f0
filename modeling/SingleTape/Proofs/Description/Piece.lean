import Mathlib.Tactic.ByContra
import SingleTape.Proofs.Description.Place

/-!
# Pieces of a line

A greedy match takes the longest piece whose characters have a property. Where a gap follows, that
piece is a whole word of the line; and the first word ahead of a place is always such a piece, if
its characters have the property.
-/

namespace SingleTape.Description

namespace Cursor

variable {c d e : Cursor} {p : Char → Bool} {b v w : List Char} {ws : List (List Char)}

/-- The longest piece at a place whose characters all have a property, and the place after it. -/
structure Piece (p : Char → Bool) (c : Cursor) (chars : List Char) (d : Cursor) : Prop where
  ne_nil : chars ≠ []
  all : ∀ x ∈ chars, p x = true
  rest : c.rest = chars ++ d.rest
  stops : Stops p d.rest
  place : d = c.skip chars d.rest

def Column (p : Char → Bool) (c : Cursor) (chars : List Char) (d : Cursor) : Prop :=
  ∃ m b, Piece isBlank c b m ∧ Piece p m chars d

theorem Stops.append {r : List Char} (hne : w ≠ []) (hw : ∀ x ∈ w, p x = false) :
    Stops p (w ++ r) := by
  cases w with
  | nil => exact absurd rfl hne
  | cons x w =>
    intro y hy
    cases hy
    exact hw x (by simp)

theorem piece_skip {r : List Char} (hne : w ≠ []) (hw : ∀ x ∈ w, p x = true)
    (hc : c.rest = w ++ r) (hr : Stops p r) : Piece p c w (c.skip w r) :=
  ⟨hne, hw, hc, hr, rfl⟩

theorem piece_span (h : c.rest.takeWhile p ≠ []) :
    Piece p c (c.rest.takeWhile p) (c.span p).2 :=
  piece_skip h (fun _ => of_mem_takeWhile) List.takeWhile_append_dropWhile.symm
    (stops_dropWhile p c.rest)

/-- A piece is all there is of its kind. -/
theorem Piece.eq_takeWhile (h : Piece p c w d) : w = c.rest.takeWhile p := by
  rw [h.rest, List.takeWhile_append_of_pos h.all]
  cases hr : d.rest with
  | nil => simp
  | cons x r => simp [h.stops x (by simp [hr])]

theorem Piece.unique (h : Piece p c v d) (h' : Piece p c w e) : v = w ∧ d = e := by
  obtain rfl : v = w := by rw [h.eq_takeWhile, h'.eq_takeWhile]
  have hr : d.rest = e.rest := List.append_cancel_left (h.rest.symm.trans h'.rest)
  exact ⟨rfl, by rw [h.place, h'.place, hr]⟩

/-- Piece by piece is what the greedy match on characters does. -/
theorem piece_iff : Piece p c w d ↔
    c.rest.takeWhile p ≠ [] ∧ w = c.rest.takeWhile p ∧ d = (c.span p).2 := by
  constructor
  · intro h
    have hw := h.eq_takeWhile
    have hne : c.rest.takeWhile p ≠ [] := by
      rw [← hw]
      exact h.ne_nil
    exact ⟨hne, hw, (h.unique (piece_span hne)).2⟩
  · rintro ⟨hne, rfl, rfl⟩
    exact piece_span hne

theorem Piece.length_rest_lt (h : Piece p c w d) : d.rest.length < c.rest.length := by
  have hw : 0 < w.length := List.length_pos_iff.mpr h.ne_nil
  rw [h.rest, List.length_append]
  omega

theorem Piece.linesBelow_eq (h : Piece p c w d) (hp : ∀ x, p x = true → isLineBreak x = false) :
    c.linesBelow = d.linesBelow := by
  rw [h.place, linesBelow_skip h.rest fun x hx => hp x (h.all x hx)]

theorem Piece.firstLine_eq (h : Piece p c w d) (hp : ∀ x, p x = true → isLineBreak x = false) :
    firstLine c.rest = w ++ firstLine d.rest := by
  rw [h.rest, firstLine_append fun x hx => hp x (h.all x hx)]

/-- A piece that a gap follows is a word of the line. -/
theorem Piece.passes (h : Piece p c w d) (hp : ∀ x, p x = true → isVisible x = true)
    (hd : d.AtGap) : c.Passes [w] d where
  words := by
    have hb : ∀ x ∈ w, isBlank x = false :=
      fun x hx => isBlank_eq_false_of_isVisible (hp x (h.all x hx))
    rw [wordsAhead, h.firstLine_eq fun x hx => isLineBreak_eq_false_of_isVisible (hp x hx),
      words_append h.ne_nil hb (blank_of_atGap hd)]
    rfl
  lines := h.linesBelow_eq fun x hx => isLineBreak_eq_false_of_isVisible (hp x hx)

/-- Blanks pass no word. -/
theorem Piece.passes_gap (h : Piece isBlank c b d) : c.Passes [] d where
  words := by
    rw [wordsAhead, h.firstLine_eq fun _ => isLineBreak_eq_false_of_isBlank,
      words_append_of_isBlank h.all]
    rfl
  lines := h.linesBelow_eq fun _ => isLineBreak_eq_false_of_isBlank

theorem Piece.atGap (h : Piece isBlank c b d) : c.AtGap := by
  rw [AtGap, h.rest]
  exact Stops.append h.ne_nil fun x hx => isVisible_eq_false_of_isBlank (h.all x hx)

theorem Column.passes (h : Column p c w d) (hp : ∀ x, p x = true → isVisible x = true)
    (hd : d.AtGap) : c.Passes [w] d := by
  obtain ⟨m, b, hb, hw⟩ := h
  exact hb.passes_gap.trans (hw.passes hp hd)

theorem Column.atGap (h : Column p c w d) : c.AtGap := by
  obtain ⟨m, b, hb, -⟩ := h
  exact hb.atGap

theorem Column.ne_nil (h : Column p c w d) : w ≠ [] := by
  obtain ⟨m, b, -, hw⟩ := h
  exact hw.ne_nil

theorem Column.length_rest_lt (h : Column p c w d) : d.rest.length < c.rest.length := by
  obtain ⟨m, b, hb, hw⟩ := h
  exact Nat.lt_trans hw.length_rest_lt hb.length_rest_lt

theorem Piece.flush (h : Piece p c w d) (hp : ∀ x, p x = true → isVisible x = true) :
    Stops isBlank (firstLine c.rest) := by
  rw [h.firstLine_eq fun x hx => isLineBreak_eq_false_of_isVisible (hp x hx)]
  exact Stops.append h.ne_nil fun x hx => isBlank_eq_false_of_isVisible (hp x (h.all x hx))

/-- A gap on a line that goes on begins with a blank. -/
theorem takeWhile_isBlank_ne_nil (hc : c.AtGap) (h : firstLine c.rest ≠ []) :
    c.rest.takeWhile isBlank ≠ [] := by
  cases hl : firstLine c.rest with
  | nil => exact absurd hl h
  | cons x l =>
    have hx : isBlank x = true := blank_of_atGap hc x (by simp [hl])
    cases hr : c.rest with
    | nil => simp [hr, firstLine] at hl
    | cons y r =>
      have hy := head?_of_firstLine hl
      rw [hr] at hy
      cases hy
      simp [hx]

theorem isVisible_of_wordsAhead_eq_cons (h : c.wordsAhead = w :: ws) :
    ∀ x ∈ w, isVisible x = true := by
  intro x hx
  have hw : w ∈ words (firstLine c.rest) := by
    rw [show words (firstLine c.rest) = w :: ws from h]
    exact List.mem_cons_self
  obtain ⟨hmem, hb⟩ := mem_of_mem_words hw x hx
  have hl : isLineBreak x = false := by simpa using of_mem_takeWhile hmem
  simp [isVisible, hb, hl]

/-- In front of a word, the first word ahead can be taken off. -/
theorem exists_piece (hp : ∀ x, p x = true → isVisible x = true)
    (hc : Stops isBlank (firstLine c.rest)) (h : c.wordsAhead = w :: ws)
    (hw : ∀ x ∈ w, p x = true) :
    ∃ d, Piece p c w d ∧ d.AtGap ∧ d.wordsAhead = ws ∧ c.linesBelow = d.linesBelow := by
  obtain ⟨r, hl, hne, -, hr, -⟩ := exists_of_words_eq_cons hc h
  let k := c.rest.dropWhile fun x => !isLineBreak x
  have hrest : c.rest = w ++ (r ++ k) := by
    rw [← List.append_assoc, ← hl]
    exact List.takeWhile_append_dropWhile.symm
  -- Behind the word the line ends, or a blank follows.
  have hgap : Stops isVisible (r ++ k) := by
    cases r with
    | nil =>
      intro x hx
      have hx' := stops_dropWhile (fun x => !isLineBreak x) c.rest x hx
      exact isVisible_eq_false_of_isLineBreak (by simpa using hx')
    | cons y r =>
      intro x hx
      cases hx
      exact isVisible_eq_false_of_isBlank (hr _ rfl)
  have hstop : Stops p (r ++ k) := by
    intro x hx
    by_contra hpx
    have hv := hp x (by simpa using hpx)
    rw [hgap x hx] at hv
    cases hv
  have hpiece : Piece p c w (c.skip w (r ++ k)) := piece_skip hne hw hrest hstop
  have hpass := hpiece.passes hp hgap
  have hws := hpass.words
  rw [h] at hws
  exact ⟨_, hpiece, hgap, (List.cons.inj hws).2.symm, hpass.lines⟩

/-- In a gap, the first word ahead can be taken off together with the blanks before it. -/
theorem exists_column (hp : ∀ x, p x = true → isVisible x = true) (hc : c.AtGap)
    (h : c.wordsAhead = w :: ws) (hw : ∀ x ∈ w, p x = true) :
    ∃ d, Column p c w d ∧ d.AtGap ∧ d.wordsAhead = ws ∧ c.linesBelow = d.linesBelow := by
  have hb : c.rest.takeWhile isBlank ≠ [] := by
    apply takeWhile_isBlank_ne_nil hc
    intro hl
    rw [wordsAhead, hl] at h
    cases h
  have hm : Piece isBlank c (c.rest.takeWhile isBlank) c.skipBlanks := piece_span hb
  have hpass := hm.passes_gap
  -- The blanks are taken whole, so the word begins behind them.
  have hfirst : Stops isBlank (firstLine c.skipBlanks.rest) := by
    intro x hx
    cases hl : firstLine c.skipBlanks.rest with
    | nil => simp [hl] at hx
    | cons y l =>
      rw [hl] at hx
      cases hx
      exact hm.stops x (head?_of_firstLine hl)
  obtain ⟨d, hd, hgap, hws, hlines⟩ := exists_piece hp hfirst (hpass.words.symm.trans h) hw
  exact ⟨d, ⟨_, _, hm, hd⟩, hgap, hws, hpass.lines.trans hlines⟩

end Cursor

end SingleTape.Description
