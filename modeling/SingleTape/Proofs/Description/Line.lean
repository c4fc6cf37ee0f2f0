import Mathlib.Tactic.ByContra
import Mathlib.Tactic.Tauto
import SingleTape.Description.Cursor

/-!
# Lines and words

A text cut into lines, and a line cut into words. Every line end counts, of which a carriage return
with a line feed is one, but only a line feed raises the line number.
-/

namespace SingleTape.Description

structure Line where
  number : Nat
  chars : List Char
deriving DecidableEq

def words (chars : List Char) : List (List Char) := (chars.splitOnP isBlank).filter (· ≠ [])

def linesFrom (n : Nat) : List Char → List Line
  | [] => [⟨n, []⟩]
  | '\r' :: '\n' :: cs => ⟨n, []⟩ :: linesFrom (n + 1) cs
  | '\r' :: cs => ⟨n, []⟩ :: linesFrom n cs
  | '\n' :: cs => ⟨n, []⟩ :: linesFrom (n + 1) cs
  | c :: cs => (linesFrom n cs).modifyHead fun l => { l with chars := c :: l.chars }

def Line.notBlank (l : Line) : Bool := !l.chars.all isBlank

def filledLines (text : List Char) : List Line := (linesFrom 1 text).filter Line.notBlank

def firstLine (text : List Char) : List Char := text.takeWhile fun c => !isLineBreak c

def Stops (p : Char → Bool) (text : List Char) : Prop := ∀ c ∈ text.head?, p c = false

section Characters

variable {c : Char}

theorem isBlank_eq_false_of_isVisible (h : isVisible c = true) : isBlank c = false := by
  simp only [isVisible, Bool.and_eq_true, Bool.not_eq_true'] at h
  exact h.1

theorem isLineBreak_eq_false_of_isVisible (h : isVisible c = true) : isLineBreak c = false := by
  simp only [isVisible, Bool.and_eq_true, Bool.not_eq_true'] at h
  exact h.2

theorem isVisible_eq_false_of_isBlank (h : isBlank c = true) : isVisible c = false := by
  simp [isVisible, h]

theorem isVisible_eq_false_of_isLineBreak (h : isLineBreak c = true) : isVisible c = false := by
  simp [isVisible, h]

theorem isBlank_of_isVisible_eq_false (h : isVisible c = false) (hb : isLineBreak c = false) :
    isBlank c = true := by
  simpa [isVisible, hb] using h

theorem isLineBreak_eq_false_of_ne (hr : c ≠ '\r') (hn : c ≠ '\n') : isLineBreak c = false := by
  rw [isLineBreak, decide_eq_false hr, decide_eq_false hn]
  rfl

theorem isLineBreak_eq_false_of_isBlank (h : isBlank c = true) : isLineBreak c = false := by
  simp only [isBlank, Bool.or_eq_true, decide_eq_true_eq] at h
  obtain rfl | rfl := h <;> decide

/-- There are four invisible characters, so what holds of none of them holds of visible ones only.
-/
theorem isVisible_of_isNameChar (h : isNameChar c = true) : isVisible c = true := by
  by_contra hv
  have hc : c = ' ' ∨ c = '\t' ∨ c = '\n' ∨ c = '\r' := by
    simp only [isVisible, isBlank, isLineBreak, Bool.and_eq_true, Bool.not_eq_true',
      Bool.or_eq_false_iff, decide_eq_false_iff_not] at hv
    tauto
  obtain rfl | rfl | rfl | rfl := hc <;> revert h <;> decide

theorem isVisible_of_isDigit (h : c.isDigit = true) : isVisible c = true := by
  apply isVisible_of_isNameChar
  show (c.isAlpha || c.isDigit || decide (c = '_')) = true
  simp [h]

/-- Only letters change when a character is made lower case. -/
theorem isNameChar_of_toLower (h : isNameChar c.toLower = true) : isNameChar c = true := by
  by_cases hu : c.isUpper = true
  · show (c.isUpper || c.isLower || c.isDigit || decide (c = '_')) = true
    simp [hu]
  · have hc : c.toLower = c := dif_neg fun h => hu (decide_eq_true h)
    rw [← hc]
    exact h

end Characters

section Words

variable {b l r w : List Char}

@[simp] theorem words_nil : words [] = [] := rfl

/-- Blanks before the words of a line make no difference. -/
theorem words_append_of_isBlank (hb : ∀ c ∈ b, isBlank c = true) : words (b ++ r) = words r := by
  induction b with
  | nil => rfl
  | cons c b ih =>
    have hc : isBlank c = true := hb c (by simp)
    rw [← ih fun x hx => hb x (by simp [hx])]
    simp [words, List.splitOnP_cons_eq_if_modifyHead, hc]

theorem words_append (hne : w ≠ []) (hw : ∀ c ∈ w, isBlank c = false)
    (hr : ∀ c ∈ r.head?, isBlank c = true) : words (w ++ r) = w :: words r := by
  cases r with
  | nil =>
    rw [List.append_nil, words, List.splitOnP_eq_singleton hw]
    simp [hne]
  | cons c r =>
    have hc : isBlank c = true := hr c rfl
    rw [words, List.splitOnP_append_cons_of_forall_mem hw c hc]
    simp [words, List.splitOnP_cons_eq_if_modifyHead, hc, hne]

/-- A line that does not begin with a blank begins with a word. -/
theorem eq_append_of_head? (hl : ∀ c ∈ l.head?, isBlank c = false) (hne : l ≠ []) :
    ∃ w r, l = w ++ r ∧ w ≠ [] ∧ (∀ c ∈ w, isBlank c = false) ∧
      ∀ c ∈ r.head?, isBlank c = true := by
  refine ⟨l.takeWhile fun c => !isBlank c, l.dropWhile fun c => !isBlank c,
    List.takeWhile_append_dropWhile.symm, ?_, ?_, ?_⟩
  · cases l with
    | nil => exact absurd rfl hne
    | cons c l => simp [hl c rfl]
  · intro c hc
    have h := List.all_eq_true.mp (List.all_takeWhile (p := fun c => !isBlank c) (l := l)) c hc
    simpa using h
  · intro c hc
    have h := List.head?_dropWhile_not (fun c => !isBlank c) l
    rw [hc] at h
    simpa using h

/-- The first word of a line that begins with a word. -/
theorem exists_of_words_eq_cons {ws : List (List Char)}
    (hl : ∀ c ∈ l.head?, isBlank c = false) (h : words l = w :: ws) :
    ∃ r, l = w ++ r ∧ w ≠ [] ∧ (∀ c ∈ w, isBlank c = false) ∧
      (∀ c ∈ r.head?, isBlank c = true) ∧ words r = ws := by
  have hne : l ≠ [] := by
    rintro rfl
    cases h
  obtain ⟨v, r, rfl, hv, hvb, hr⟩ := eq_append_of_head? hl hne
  rw [words_append hv hvb hr] at h
  cases h
  exact ⟨r, rfl, hv, hvb, hr, rfl⟩

/-- Pieces between blanks hold none. -/
theorem mem_of_mem_splitOnP (h : w ∈ l.splitOnP isBlank) : ∀ x ∈ w, x ∈ l ∧ isBlank x = false := by
  -- The first character separates pieces, or it belongs to the first of them.
  induction l generalizing w with
  | nil =>
    simp only [List.splitOnP_nil, List.mem_singleton] at h
    simp [h]
  | cons c l ih =>
    rw [List.splitOnP_cons_eq_if_modifyHead] at h
    split at h
    · obtain rfl | h := List.mem_cons.mp h
      · simp
      · intro x hx
        exact ⟨List.mem_cons_of_mem c (ih h x hx).1, (ih h x hx).2⟩
    case isFalse hc =>
      obtain ⟨v, vs, hv⟩ := List.exists_cons_of_ne_nil (List.splitOnP_ne_nil isBlank l)
      rw [hv] at h ih
      rw [List.modifyHead_cons] at h
      intro x hx
      obtain rfl | h := List.mem_cons.mp h
      · obtain rfl | hx := List.mem_cons.mp hx
        · exact ⟨List.mem_cons_self, by simpa using hc⟩
        · have hv := ih List.mem_cons_self x hx
          exact ⟨List.mem_cons_of_mem c hv.1, hv.2⟩
      · have hv := ih (List.mem_cons_of_mem v h) x hx
        exact ⟨List.mem_cons_of_mem c hv.1, hv.2⟩

theorem mem_of_mem_words (h : w ∈ words l) : ∀ x ∈ w, x ∈ l ∧ isBlank x = false :=
  mem_of_mem_splitOnP (List.mem_filter.mp h).1

/-- A line without words is made of blanks. -/
theorem words_eq_nil_iff : words l = [] ↔ ∀ c ∈ l, isBlank c = true := by
  constructor
  · intro h
    induction l with
    | nil => simp
    | cons c l ih =>
      by_cases hc : isBlank c = true
      · have hl : words l = [] := by
          rw [← h]
          exact (words_append_of_isBlank (b := [c]) (by simpa using hc)).symm
        simpa [hc] using ih hl
      · have hh : ∀ x ∈ (c :: l).head?, isBlank x = false := by simpa using hc
        obtain ⟨w, r, hwr, hne, hw, hr⟩ := eq_append_of_head? hh (by simp)
        rw [hwr, words_append hne hw hr] at h
        cases h
  · intro h
    rw [← List.append_nil l, words_append_of_isBlank h, words_nil]

theorem Line.notBlank_iff {l : Line} : l.notBlank = true ↔ words l.chars ≠ [] := by
  rw [Ne, words_eq_nil_iff]
  simp [Line.notBlank]

end Words

section Lines

variable {n : Nat} {c : Char} {w r text : List Char}

/-- A character that ends no line belongs to the first line. -/
theorem linesFrom_cons (hc : isLineBreak c = false) : linesFrom n (c :: r) =
    (linesFrom n r).modifyHead fun l => { l with chars := c :: l.chars } := by
  have hn : c ≠ '\n' := by
    rintro rfl
    cases hc
  have hr : c ≠ '\r' := by
    rintro rfl
    cases hc
  rw [linesFrom] <;> simp [hn, hr]

/-- The first line has the number given, and reaches to the first line break. -/
theorem linesFrom_eq_cons :
    linesFrom n text = ⟨n, firstLine text⟩ :: (linesFrom n text).tail := by
  fun_induction linesFrom n text with
  | case1 n => rfl
  | case2 n cs ih => rfl
  | case3 n cs h ih => rfl
  | case4 n cs ih => rfl
  | case5 n c cs h1 h2 h3 ih =>
    have hc : isLineBreak c = false := isLineBreak_eq_false_of_ne h2 h3
    rw [ih]
    simp [firstLine, hc]

/-- What is on the first line does not change the lines below. -/
theorem tail_linesFrom_append (hw : ∀ c ∈ w, isLineBreak c = false) :
    (linesFrom n (w ++ r)).tail = (linesFrom n r).tail := by
  induction w with
  | nil => rfl
  | cons c w ih =>
    have hc : isLineBreak c = false := hw c (by simp)
    rw [← ih fun x hx => hw x (by simp [hx]), List.cons_append, linesFrom_cons hc]
    cases linesFrom n (w ++ r) with
    | nil => rfl
    | cons l ls => rfl

theorem firstLine_append (hw : ∀ c ∈ w, isLineBreak c = false) :
    firstLine (w ++ r) = w ++ firstLine r := by
  apply List.takeWhile_append_of_pos
  simpa using hw

/-- No line is left just if no character is visible. -/
theorem filter_linesFrom_eq_nil_iff : (linesFrom n text).filter Line.notBlank = [] ↔
    ∀ x ∈ text, isVisible x = false := by
  -- The induction is along the reading of the lines. Line breaks are not visible, and other
  -- characters just if they are no blanks.
  fun_induction linesFrom n text with
  | case1 n => simp [Line.notBlank]
  | case2 n cs ih =>
    have hr : isVisible '\r' = false := by decide
    have hn : isVisible '\n' = false := by decide
    rw [List.filter_cons_of_neg (by simp [Line.notBlank]), ih]
    simp [hr, hn]
  | case3 n cs _ ih =>
    have hr : isVisible '\r' = false := by decide
    rw [List.filter_cons_of_neg (by simp [Line.notBlank]), ih]
    simp [hr]
  | case4 n cs ih =>
    have hn : isVisible '\n' = false := by decide
    rw [List.filter_cons_of_neg (by simp [Line.notBlank]), ih]
    simp [hn]
  | case5 n c cs _ hr hn ih =>
    have hb : isLineBreak c = false := isLineBreak_eq_false_of_ne hr hn
    have hv : isVisible c = false ↔ isBlank c = true :=
      ⟨fun h => isBlank_of_isVisible_eq_false h hb, isVisible_eq_false_of_isBlank⟩
    rw [List.forall_mem_cons, ← ih, linesFrom_eq_cons, List.modifyHead_cons, hv]
    simp only [List.filter_eq_nil_iff, List.forall_mem_cons, Line.notBlank, List.all_cons]
    cases isBlank c <;> simp

/-- Every line is a piece of the text, and its number counts the line feeds before it. -/
theorem exists_of_mem_linesFrom {l : Line} (h : l ∈ linesFrom n text) :
    ∃ before after, text = before ++ l.chars ++ after ∧ l.number = n + before.count '\n' := by
  -- The induction is along the reading of the lines; a line is the first one or one of the rest.
  fun_induction linesFrom n text with
  | case1 n =>
    rw [List.mem_singleton.mp h]
    exact ⟨[], [], rfl, rfl⟩
  | case2 n cs ih =>
    obtain rfl | h := List.mem_cons.mp h
    · exact ⟨[], '\r' :: '\n' :: cs, rfl, rfl⟩
    · obtain ⟨before, after, rfl, hn⟩ := ih h
      refine ⟨'\r' :: '\n' :: before, after, by simp, ?_⟩
      simp [hn]
      omega
  | case3 n cs _ ih =>
    obtain rfl | h := List.mem_cons.mp h
    · exact ⟨[], '\r' :: cs, rfl, rfl⟩
    · obtain ⟨before, after, rfl, hn⟩ := ih h
      exact ⟨'\r' :: before, after, by simp, by simp [hn]⟩
  | case4 n cs ih =>
    obtain rfl | h := List.mem_cons.mp h
    · exact ⟨[], '\n' :: cs, rfl, rfl⟩
    · obtain ⟨before, after, rfl, hn⟩ := ih h
      refine ⟨'\n' :: before, after, by simp, ?_⟩
      simp [hn]
      omega
  | case5 n c cs _ _ hc ih =>
    rw [linesFrom_eq_cons, List.modifyHead_cons] at h
    obtain rfl | h := List.mem_cons.mp h
    · refine ⟨[], cs.dropWhile fun c => !isLineBreak c, ?_, rfl⟩
      simp [firstLine]
    · obtain ⟨before, after, rfl, hn⟩ := ih (List.mem_of_mem_tail h)
      have hc : c ≠ '\n' := hc
      exact ⟨c :: before, after, by simp, by simp [hn, hc]⟩

-- A carriage return on its own ends a line, but the next one has the same number.
example : linesFrom 1 ['a', '\r', '\n', '\r', 'b', '\n'] =
    [⟨1, ['a']⟩, ⟨2, []⟩, ⟨2, ['b']⟩, ⟨3, []⟩] := by decide

end Lines

end SingleTape.Description
