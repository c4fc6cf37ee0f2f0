import Mathlib.Data.List.TakeWhile
import SingleTape.Proofs.Description.Line

/-!
# What lies ahead of a place in a text

Taking a piece off the text moves a place forward along its line, or on to a line below. What
counts for the format is how that changes the words still ahead on the line and the lines below.
-/

namespace SingleTape.Description

namespace Cursor

variable {c d e : Cursor} {p : Char → Bool} {w : List Char} {vs ws : List (List Char)}

def wordsAhead (c : Cursor) : List (List Char) := words (firstLine c.rest)

/-- The lines from here on that are not blank; of the line around the place, what is ahead. -/
def linesAhead (c : Cursor) : List Line := (linesFrom c.line c.rest).filter Line.notBlank

def linesBelow (c : Cursor) : List Line := (linesFrom c.line c.rest).tail.filter Line.notBlank

def AtGap (c : Cursor) : Prop := Stops isVisible c.rest

/-- From one place to the other there are just these words, and the line stays the same. -/
structure Passes (c : Cursor) (ws : List (List Char)) (d : Cursor) : Prop where
  words : c.wordsAhead = ws ++ d.wordsAhead
  lines : c.linesBelow = d.linesBelow

theorem Passes.refl (c : Cursor) : c.Passes [] c := ⟨rfl, rfl⟩

theorem Passes.trans (h : c.Passes ws d) (h' : d.Passes vs e) : c.Passes (ws ++ vs) e where
  words := by rw [h.words, h'.words, List.append_assoc]
  lines := by rw [h.lines, h'.lines]

section Lines

@[simp] theorem skip_rest (r : List Char) : (c.skip w r).rest = r := rfl

theorem skip_line (r : List Char) (hw : ∀ x ∈ w, isLineBreak x = false) :
    (c.skip w r).line = c.line := by
  have hn : w.count '\n' = 0 := by
    apply List.count_eq_zero.mpr
    intro hmem
    cases hw '\n' hmem
  show c.line + w.count '\n' = c.line
  rw [hn, Nat.add_zero]

theorem linesBelow_skip {r : List Char} (hc : c.rest = w ++ r)
    (hw : ∀ x ∈ w, isLineBreak x = false) : (c.skip w r).linesBelow = c.linesBelow := by
  unfold linesBelow
  rw [skip_line r hw, skip_rest, hc, tail_linesFrom_append hw]

/-- Without words ahead on this line the lines ahead are those below. -/
theorem linesAhead_of_wordsAhead_eq_nil (h : c.wordsAhead = []) : c.linesAhead = c.linesBelow := by
  have hb : ¬ Line.notBlank ⟨c.line, firstLine c.rest⟩ = true := by
    rw [Line.notBlank_iff]
    exact not_not_intro h
  rw [linesAhead, linesFrom_eq_cons, List.filter_cons_of_neg hb]
  rfl

/-- With words ahead this line is the first of the lines ahead. -/
theorem linesAhead_of_wordsAhead_ne_nil (h : c.wordsAhead ≠ []) :
    c.linesAhead = ⟨c.line, firstLine c.rest⟩ :: c.linesBelow := by
  have hb : Line.notBlank ⟨c.line, firstLine c.rest⟩ = true := Line.notBlank_iff.mpr h
  rw [linesAhead, linesFrom_eq_cons, List.filter_cons_of_pos hb]
  rfl

/-- Where no words are ahead there is a gap. -/
theorem atGap_of_wordsAhead_eq_nil (h : c.wordsAhead = []) : c.AtGap := by
  intro x hx
  by_cases hb : isLineBreak x = true
  · exact isVisible_eq_false_of_isLineBreak hb
  · apply isVisible_eq_false_of_isBlank
    apply words_eq_nil_iff.mp h
    cases hr : c.rest with
    | nil => simp [hr] at hx
    | cons y r =>
      rw [hr] at hx
      cases hx
      simp [firstLine, hb]

/-- Nothing is on the line and below just if no character to come is visible. -/
theorem wordsAhead_and_linesBelow_eq_nil_iff :
    c.wordsAhead = [] ∧ c.linesBelow = [] ↔ ∀ x ∈ c.rest, isVisible x = false := by
  rw [← filter_linesFrom_eq_nil_iff (n := c.line)]
  show _ ↔ c.linesAhead = []
  by_cases h : c.wordsAhead = []
  · rw [linesAhead_of_wordsAhead_eq_nil h]
    simp [h]
  · rw [linesAhead_of_wordsAhead_ne_nil h]
    simp [h]

/-- Nothing but space is left exactly when there are no words here and no lines below. -/
theorem skipSpace_rest_eq_nil_iff :
    c.skipSpace.rest = [] ↔ c.wordsAhead = [] ∧ c.linesBelow = [] := by
  rw [wordsAhead_and_linesBelow_eq_nil_iff]
  show c.rest.dropWhile (fun x => !isVisible x) = [] ↔ _
  rw [List.dropWhile_eq_nil_iff]
  simp

end Lines

section LineEnds

theorem stops_dropWhile (p : Char → Bool) (l : List Char) : Stops p (l.dropWhile p) := by
  intro x hx
  have h := List.head?_dropWhile_not p l
  rw [Option.mem_def.mp hx] at h
  simpa using h

theorem of_mem_takeWhile {l : List Char} {x : Char} (h : x ∈ l.takeWhile p) : p x = true :=
  List.all_eq_true.mp List.all_takeWhile x h

/-- Skipping blanks passes no word. -/
theorem passes_skipBlanks (c : Cursor) : c.Passes [] c.skipBlanks := by
  have hb : ∀ x ∈ c.rest.takeWhile isBlank, isBlank x = true := fun x => of_mem_takeWhile
  have hl : ∀ x ∈ c.rest.takeWhile isBlank, isLineBreak x = false :=
    fun x hx => isLineBreak_eq_false_of_isBlank (hb x hx)
  have hc : c.rest = c.rest.takeWhile isBlank ++ c.skipBlanks.rest :=
    List.takeWhile_append_dropWhile.symm
  refine ⟨?_, (linesBelow_skip hc hl).symm⟩
  rw [wordsAhead, hc, firstLine_append hl, words_append_of_isBlank hb]
  rfl

/-- At a line break the line is over. -/
theorem firstLine_of_lineBreak? (h : c.lineBreak? = some d) : firstLine c.rest = [] := by
  unfold lineBreak? at h
  split at h
  case h_1 rest heq =>
    rw [heq]
    rfl
  case h_2 rest _ heq =>
    rw [heq]
    rfl
  case h_3 rest heq =>
    rw [heq]
    rfl
  case h_4 => cases h

/-- Taking a line break leads from one line to the next. -/
theorem tail_linesFrom_of_lineBreak? (h : c.lineBreak? = some d) :
    (linesFrom c.line c.rest).tail = linesFrom d.line d.rest := by
  unfold lineBreak? at h
  split at h
  case h_1 rest heq =>
    cases h
    rw [heq]
    rfl
  case h_2 rest hno heq =>
    cases h
    rw [heq, linesFrom]
    · rfl
    · exact hno
  case h_3 rest heq =>
    cases h
    rw [heq]
    rfl
  case h_4 => cases h

/-- Where a line is over without a line break the text is over. -/
theorem rest_eq_nil_of_lineBreak? (h : c.lineBreak? = none) (hl : firstLine c.rest = []) :
    c.rest = [] := by
  unfold lineBreak? at h
  split at h
  case h_1 => cases h
  case h_2 => cases h
  case h_3 => cases h
  case h_4 _ hr hn =>
    cases hc : c.rest with
    | nil => rfl
    | cons x r =>
      have hx : isLineBreak x = true := by
        rw [hc] at hl
        simpa [firstLine] using hl
      simp only [isLineBreak, Bool.or_eq_true, decide_eq_true_eq] at hx
      obtain rfl | rfl := hx
      · exact absurd hc (hn r)
      · exact absurd hc (hr r)

theorem head?_of_firstLine {l text : List Char} {x : Char} (h : firstLine text = x :: l) :
    x ∈ text.head? := by
  rw [← List.takeWhile_append_dropWhile (p := fun c => !isLineBreak c) (l := text)]
  rw [show text.takeWhile (fun c => !isLineBreak c) = x :: l from h]
  rfl

theorem blank_of_atGap (h : c.AtGap) : ∀ x ∈ (firstLine c.rest).head?, isBlank x = true := by
  intro x hx
  cases hl : firstLine c.rest with
  | nil => simp [hl] at hx
  | cons y l =>
    rw [hl] at hx
    cases hx
    have hb : isLineBreak x = false := by
      have hmem : x ∈ firstLine c.rest := by simp [hl]
      simpa using of_mem_takeWhile hmem
    exact isBlank_of_isVisible_eq_false (h x (head?_of_firstLine hl)) hb

/-- A line end comes after the last word of its line, and leads to the lines below. -/
theorem linesBelow_of_lineEnd? (h : c.lineEnd? = some d) :
    c.wordsAhead = [] ∧ c.linesBelow = d.linesAhead := by
  have hc := passes_skipBlanks c
  have hf : firstLine c.skipBlanks.rest = [] := firstLine_of_lineBreak? h
  constructor
  · rw [hc.words, List.nil_append, wordsAhead, hf, words_nil]
  · rw [hc.lines, linesBelow, tail_linesFrom_of_lineBreak? h, linesAhead]

theorem linesAhead_of_lineEnd? (h : c.lineEnd? = some d) : c.linesAhead = d.linesAhead := by
  obtain ⟨hw, hl⟩ := linesBelow_of_lineEnd? h
  rw [linesAhead_of_wordsAhead_eq_nil hw, hl]

/-- A line that ends without a line break is the last one. -/
theorem linesBelow_of_lineEnd?_eq_none (h : c.lineEnd? = none) (hw : c.wordsAhead = []) :
    c.linesBelow = [] := by
  have hc := passes_skipBlanks c
  have hs : Stops isBlank c.skipBlanks.rest := stops_dropWhile isBlank c.rest
  have hf : firstLine c.skipBlanks.rest = [] := by
    rw [hc.words, List.nil_append, wordsAhead, words_eq_nil_iff] at hw
    cases hr : firstLine c.skipBlanks.rest with
    | nil => rfl
    | cons x l =>
      have hx : x ∈ c.skipBlanks.rest.head? := head?_of_firstLine hr
      have hb : isBlank x = true := hw x (by simp [hr])
      rw [hs x hx] at hb
      cases hb
  rw [hc.lines, linesBelow, rest_eq_nil_of_lineBreak? h hf]
  rfl

theorem lineEnd?_skipEmptyLines (c : Cursor) : c.skipEmptyLines.lineEnd? = none := by
  fun_induction skipEmptyLines c with
  | case1 c d h _ ih => exact ih
  | case2 c h => exact h

theorem linesAhead_skipEmptyLines (c : Cursor) : c.skipEmptyLines.linesAhead = c.linesAhead := by
  fun_induction skipEmptyLines c with
  | case1 c d h _ ih => rw [ih, linesAhead_of_lineEnd? h]
  | case2 c h => rfl

/-- After the empty lines stands the next line that is not blank, if there is one. -/
theorem linesAhead_eq_cons {l : Line} {ls : List Line} (h : c.linesAhead = l :: ls) :
    l = ⟨c.skipEmptyLines.line, firstLine c.skipEmptyLines.rest⟩ ∧
      c.skipEmptyLines.linesBelow = ls := by
  rw [← linesAhead_skipEmptyLines] at h
  by_cases hw : c.skipEmptyLines.wordsAhead = []
  · have hb := linesBelow_of_lineEnd?_eq_none (lineEnd?_skipEmptyLines c) hw
    rw [linesAhead_of_wordsAhead_eq_nil hw, hb] at h
    cases h
  · rw [linesAhead_of_wordsAhead_ne_nil hw] at h
    cases h
    exact ⟨rfl, rfl⟩

theorem linesAhead_of_skipEmptyLines (h : c.skipEmptyLines.wordsAhead ≠ []) : c.linesAhead =
    ⟨c.skipEmptyLines.line, firstLine c.skipEmptyLines.rest⟩ :: c.skipEmptyLines.linesBelow := by
  rw [← linesAhead_skipEmptyLines, linesAhead_of_wordsAhead_ne_nil h]

end LineEnds

end Cursor

end SingleTape.Description
