import SingleTape.Description.Parse
import SingleTape.Proofs.Description.Rules

/-!
# From rules to lines

For each rule that reads a line of its own: what it reads is a line of that kind, and every line of
that kind is read. In both directions the words are passed one after the other.
-/

namespace SingleTape.Description

open Cursor

variable {c d e : Cursor} {v w : List Char}

def Cursor.lineHere (c : Cursor) : Line := ⟨c.line, firstLine c.rest⟩

/-- Nothing but blanks follows on the line, and the lines below are those below the other place. -/
structure Finishes (c d : Cursor) : Prop where
  words : d.wordsAhead = []
  lines : c.linesBelow = d.linesBelow

/-- Digits are read as a number exactly when they are a count. -/
theorem wordCount_iff {digits : List Char} {n : Nat} :
    Text.word? digits = some n ↔ digits ≠ [] ∧ IsCount digits n := by
  unfold Text.word?
  constructor
  · intro h
    split at h
    case isTrue hd =>
      cases h
      exact ⟨hd.1, by simpa using hd.2.1, rfl, hd.2.2⟩
    case isFalse => cases h
  · rintro ⟨hne, hdec, rfl, hfits⟩
    rw [if_pos ⟨hne, by simpa using hdec, hfits⟩]

theorem ofList_eq_iff {chars : List Char} {s : String} :
    String.ofList chars = s ↔ chars = s.toList := by
  constructor
  · rintro rfl
    exact String.toList_ofList.symm
  · rintro rfl
    exact String.ofList_toList

/-- A direction is read from either case of its letter and from nothing else. -/
theorem ofToken?_eq_some_iff {chars : List Char} {dir : Direction} :
    Direction.ofToken? (String.ofList chars) = some dir ↔
      ∃ letter ∈ directionLetters dir, chars = [letter] := by
  have hL : "L".toList = ['L'] := rfl
  have hl : "l".toList = ['l'] := rfl
  have hR : "R".toList = ['R'] := rfl
  have hr : "r".toList = ['r'] := rfl
  unfold Direction.ofToken?
  simp only [ofList_eq_iff, hL, hl, hR, hr]
  constructor
  · intro h
    -- The letters for the left come first, then those for the right.
    split at h
    case isTrue hc =>
      cases h
      simpa [directionLetters] using hc
    case isFalse =>
      split at h
      case isTrue hc =>
        cases h
        simpa [directionLetters] using hc
      case isFalse => cases h
  · rintro ⟨letter, hmem, rfl⟩
    cases dir with
    | left =>
      have hc : letter = 'L' ∨ letter = 'l' := by simpa [directionLetters] using hmem
      obtain rfl | rfl := hc <;> simp
    | right =>
      have hc : letter = 'R' ∨ letter = 'r' := by simpa [directionLetters] using hmem
      obtain rfl | rfl := hc <;> simp

section Words

theorem Spells.isNameChar (h : Spells v w) (hw : w.all isNameChar = true) :
    ∀ x ∈ v, isNameChar x = true := by
  intro x hx
  apply isNameChar_of_toLower
  apply List.all_eq_true.mp hw
  rw [← h]
  exact List.mem_map_of_mem hx

theorem word?_of_piece {p : Char → Bool} (h : Piece p c v d) (hv : Spells v w) :
    c.word? w = some d :=
  word?_eq_some_iff.mpr ⟨v, hv, h.rest, h.place⟩

/-- A word that a gap follows is a name that spells it. -/
theorem piece_of_word? (h : c.word? w = some d) (hne : w ≠ [])
    (hw : w.all isNameChar = true) (hd : d.AtGap) :
    ∃ v, Spells v w ∧ Piece isNameChar c v d := by
  obtain ⟨v, hv, hrest, hplace⟩ := word?_eq_some_iff.mp h
  have hvne : v ≠ [] := by
    rintro rfl
    exact hne hv.symm
  refine ⟨v, hv, hvne, hv.isNameChar hw, hrest, ?_, hplace⟩
  intro x hx
  by_contra hn
  have hvis := isVisible_of_isNameChar (by simpa using hn)
  rw [hd x hx] at hvis
  cases hvis

/-- A keyword and a count are two words of a line, which begins with the keyword. -/
theorem counted_sound {digits : List Char} (he : c.word? w = some e) (hne : w ≠ [])
    (hw : w.all isNameChar = true) (hcount : Column Char.isDigit e digits d) (hd : d.AtGap) :
    ∃ v, Spells v w ∧ Stops isBlank (firstLine c.rest) ∧ c.Passes [v, digits] d := by
  obtain ⟨v, hv, hpiece⟩ := piece_of_word? he hne hw hcount.atGap
  have hword := hpiece.passes (fun _ => isVisible_of_isNameChar) hcount.atGap
  have hdigits := hcount.passes (fun _ => isVisible_of_isDigit) hd
  exact ⟨v, hv, hpiece.flush fun _ => isVisible_of_isNameChar, hword.trans hdigits⟩

/-- A line with a keyword and a count on it is taken up to the count. -/
theorem counted_complete {digits : List Char} {n : Nat} {ws : List (List Char)}
    (hflush : Stops isBlank (firstLine c.rest)) (hwords : c.wordsAhead = v :: digits :: ws)
    (hv : Spells v w) (hw : w.all isNameChar = true) (hn : IsCount digits n) :
    ∃ e t d, c.word? w = some e ∧ Column Char.isDigit e t.chars d ∧ Token.EndsAt t d ∧
      Text.word? t.chars = some n ∧ d.AtGap ∧ d.wordsAhead = ws ∧ c.linesBelow = d.linesBelow := by
  obtain ⟨e, hpiece, hegap, hewords, helines⟩ := exists_piece (fun _ => isVisible_of_isNameChar)
    hflush hwords (hv.isNameChar hw)
  obtain ⟨d, hcount, hdgap, hdwords, hdlines⟩ := exists_column (fun _ => isVisible_of_isDigit)
    hegap hewords hn.decimal
  obtain ⟨t, rfl, ht⟩ := hcount.exists_token
  exact ⟨e, t, d, word?_of_piece hpiece hv, hcount, ht, wordCount_iff.mpr ⟨hcount.ne_nil, hn⟩,
    hdgap, hdwords, helines.trans hdlines⟩

end Words

section Header

/-- What is taken as a header, to the end of its line, is a header line. -/
theorem HeaderText.sound {t : Token} {n : Nat} (h : HeaderText c t d) (hd : d.wordsAhead = [])
    (ht : Text.word? t.chars = some n) : IsHeader c.lineHere n ∧ Finishes c d := by
  obtain ⟨e, he, hcount, -⟩ := h
  obtain ⟨v, hv, hflush, hpass⟩ := counted_sound he (List.cons_ne_nil _ _) rfl hcount
    (atGap_of_wordsAhead_eq_nil hd)
  have hwords := hpass.words
  rw [hd] at hwords
  exact ⟨⟨hflush, v, t.chars, hwords, hv, (wordCount_iff.mp ht).2⟩, hd, hpass.lines⟩

/-- A header line is taken as a header, to its end. -/
theorem HeaderText.complete {n : Nat} (h : IsHeader c.lineHere n) :
    ∃ t d, HeaderText c t d ∧ Text.word? t.chars = some n ∧ Finishes c d := by
  obtain ⟨hflush, w, digits, hwords, hw, hn⟩ := h
  obtain ⟨e, t, d, he, hcount, ht, hread, -, hdwords, hlines⟩ :=
    counted_complete hflush hwords hw rfl hn
  exact ⟨t, d, ⟨e, he, hcount, ht⟩, hread, hdwords, hlines⟩

end Header

section State

theorem Marker.isVisible_char (m : Marker) : isVisible m.char = true := by
  cases m <;> rfl

/-- At a gap a mark is a column of its own. -/
theorem markerText_iff {m : Marker} (hd : d.AtGap) :
    MarkerText c m d ↔ Column isVisible c [m.char] d := by
  constructor
  · rintro ⟨g, b, hb, hrest, hplace⟩
    exact ⟨g, b, hb, by simp, by simp [m.isVisible_char], hrest, hd, hplace⟩
  · rintro ⟨g, b, hb, hpiece⟩
    exact ⟨g, b, hb, hpiece.rest, hpiece.place⟩

/-- Without words ahead there is no mark. -/
theorem not_markerText (hc : c.wordsAhead = []) (m : Marker) : ¬ MarkerText c m d := by
  rintro ⟨g, b, hb, hrest, -⟩
  have hg : g.wordsAhead = [] := hb.passes_gap.words.symm.trans hc
  have hgap := atGap_of_wordsAhead_eq_nil hg m.char (by simp [hrest])
  rw [m.isVisible_char] at hgap
  cases hgap

theorem firstLine_eq_nil_of_blanks? (hc : c.AtGap) (h : c.blanks? = none) :
    firstLine c.rest = [] := by
  by_contra hl
  have hb := piece_span (takeWhile_isBlank_ne_nil hc hl)
  have hs := blanks?_eq_some_iff.mpr ⟨_, hb⟩
  rw [h] at hs
  cases hs

/-- Where a name stands, an alphabet line begins just if the name spells its word and blanks follow.
-/
theorem alphabetStart?_eq_none_iff (h : Piece isNameChar c v e) (he : e.AtGap) :
    Grammar.alphabetStart? c = none ↔
      (Spells v Grammar.alphabetWord → firstLine e.rest = []) := by
  constructor
  · intro hno hv
    apply firstLine_eq_nil_of_blanks? he
    rwa [Grammar.alphabetStart?, word?_of_piece h hv] at hno
  · intro hbare
    cases hs : Grammar.alphabetStart? c with
    | none => rfl
    | some f =>
      obtain ⟨e', hword, hblanks⟩ := Option.bind_eq_some_iff.mp hs
      obtain ⟨b, hb⟩ := blanks?_eq_some_iff.mp hblanks
      obtain ⟨v', hv', hpiece⟩ := piece_of_word? hword (List.cons_ne_nil _ _) rfl hb.atGap
      obtain ⟨rfl, rfl⟩ := hpiece.unique h
      have hnil := hbare hv'
      rw [hb.firstLine_eq fun _ => isLineBreak_eq_false_of_isBlank] at hnil
      exact absurd (List.append_eq_nil_iff.mp hnil).1 hb.ne_nil

/-- What is taken as a state, to the end of its line, is a state line. -/
theorem StateText.sound {s : StateLine} (h : StateText c s d) (hd : d.wordsAhead = []) :
    IsState c.lineHere s ∧ Finishes c d := by
  have hdgap := atGap_of_wordsAhead_eq_nil hd
  obtain ⟨hno, e, hname, hmark⟩ := h
  -- The words behind the name are the mark, or there are none.
  have hmarks : e.AtGap ∧ e.Passes (s.marker.toList.map fun m => [m.char]) d := by
    obtain ⟨m, hm, hmark⟩ | ⟨hm, rfl, -⟩ := hmark
    · have hcol := (markerText_iff hdgap).mp hmark
      rw [hm]
      exact ⟨hcol.atGap, hcol.passes (fun _ => id) hdgap⟩
    · rw [hm]
      exact ⟨hdgap, .refl e⟩
  obtain ⟨hegap, hmarks⟩ := hmarks
  have hall := (hname.passes (fun _ => isVisible_of_isNameChar) hegap).trans hmarks
  refine ⟨⟨hname.flush fun _ => isVisible_of_isNameChar, hname.all, ?_, ?_⟩, hd, hall.lines⟩
  · have hwords := hall.words
    rw [hd, List.append_nil] at hwords
    exact hwords
  · intro hspells
    have hnil := (alphabetStart?_eq_none_iff hname hegap).mp hno hspells
    show firstLine c.rest = _
    rw [hname.firstLine_eq fun _ h => isLineBreak_eq_false_of_isVisible (isVisible_of_isNameChar h),
      hnil, List.append_nil]

/-- A state line is taken as a state, to its end. -/
theorem StateText.complete {s : StateLine} (h : IsState c.lineHere s) :
    ∃ d, StateText c s d ∧ Finishes c d := by
  obtain ⟨hflush, hname, hwords, hbare⟩ := h
  obtain ⟨e, hpiece, hegap, hewords, helines⟩ := exists_piece (fun _ => isVisible_of_isNameChar)
    hflush hwords hname
  -- A line with the keyword for its name has nothing behind it, so it is no alphabet line.
  have hno : Grammar.alphabetStart? c = none := by
    rw [alphabetStart?_eq_none_iff hpiece hegap]
    intro hspells
    have hline : firstLine c.rest = s.name.toList := hbare hspells
    rw [hpiece.firstLine_eq fun _ h =>
      isLineBreak_eq_false_of_isVisible (isVisible_of_isNameChar h)] at hline
    exact List.append_right_eq_self.mp hline
  -- Without a mark the line is over, and with one it is the next column.
  cases hm : s.marker with
  | none =>
    rw [hm] at hewords
    exact ⟨e, ⟨hno, e, hpiece, .inr ⟨hm, rfl, fun m f => not_markerText hewords m⟩⟩,
      hewords, helines⟩
  | some m =>
    rw [hm] at hewords
    obtain ⟨d, hcol, hdgap, hdwords, hdlines⟩ := exists_column (fun _ => id) hegap hewords
      (by simp [m.isVisible_char])
    exact ⟨d, ⟨hno, e, hpiece, .inl ⟨m, hm, (markerText_iff hdgap).mpr hcol⟩⟩, hdwords,
      helines.trans hdlines⟩

end State

section Alphabet

def SymbolsText : Cursor → List Symbol → Cursor → Prop :=
  Repeats fun c s d => Column isVisible c (String.toList s) d

theorem SymbolsText.sound {symbols : List Symbol} (h : SymbolsText c symbols d)
    (hd : d.AtGap) : c.AtGap ∧ c.Passes (symbols.map String.toList) d := by
  induction h with
  | stop _ => exact ⟨hd, .refl _⟩
  | more hcol _ ih =>
    obtain ⟨hgap, hpass⟩ := ih hd
    exact ⟨hcol.atGap, (hcol.passes (fun _ => id) hgap).trans hpass⟩

theorem SymbolsText.complete {symbols : List Symbol} (hc : c.AtGap)
    (h : c.wordsAhead = symbols.map String.toList) :
    ∃ d, SymbolsText c symbols d ∧ Finishes c d := by
  induction symbols generalizing c with
  | nil =>
    refine ⟨c, .stop ?_, h, rfl⟩
    intro s d hcol
    -- A further symbol would be a word ahead.
    have hdgap : d.AtGap := by
      obtain ⟨m, b, -, hs⟩ := hcol
      exact hs.stops
    have hwords := (hcol.passes (fun _ => id) hdgap).words
    rw [h] at hwords
    cases hwords
  | cons s symbols ih =>
    obtain ⟨d, hcol, hdgap, hdwords, hdlines⟩ := exists_column (fun _ => id) hc h
      (isVisible_of_wordsAhead_eq_cons h)
    obtain ⟨f, hsymbols, hfinish⟩ := ih hdgap hdwords
    exact ⟨f, .more hcol hsymbols, hfinish.words, hdlines.trans hfinish.lines⟩

theorem AlphabetText.sound {t : Token} {symbols : List Symbol} {n : Nat}
    (h : AlphabetText c (t, symbols) d) (hd : d.wordsAhead = [])
    (ht : Text.word? t.chars = some n) : IsAlphabet c.lineHere n symbols ∧ Finishes c d := by
  obtain ⟨e, f, he, hcount, -, hsymbols⟩ := h
  obtain ⟨hfgap, hsymbols⟩ := SymbolsText.sound hsymbols (atGap_of_wordsAhead_eq_nil hd)
  obtain ⟨v, hv, hflush, hcounted⟩ := counted_sound he (List.cons_ne_nil _ _) rfl hcount hfgap
  have hpass := hcounted.trans hsymbols
  have hwords := hpass.words
  rw [hd, List.append_nil] at hwords
  exact ⟨⟨hflush, v, t.chars, hwords, hv, (wordCount_iff.mp ht).2⟩, hd, hpass.lines⟩

theorem AlphabetText.complete {symbols : List Symbol} {n : Nat}
    (h : IsAlphabet c.lineHere n symbols) : ∃ t d, AlphabetText c (t, symbols) d ∧
      Text.word? t.chars = some n ∧ Finishes c d := by
  obtain ⟨hflush, w, digits, hwords, hw, hn⟩ := h
  obtain ⟨e, t, f, he, hcount, ht, hread, hfgap, hfwords, hflines⟩ :=
    counted_complete hflush hwords hw rfl hn
  obtain ⟨d, hsymbols, hfinish⟩ := SymbolsText.complete hfgap hfwords
  exact ⟨t, d, ⟨e, f, he, hcount, ht, hsymbols⟩, hread, hfinish.words,
    hflines.trans hfinish.lines⟩

end Alphabet

section Transition

structure Completes (t : DraftTransition) (t' : TransitionLine) : Prop where
  direction : Direction.ofToken? t.direction.text = some t'.direction
  eq : t' = ⟨t.state, t.read, t.next, t.write, t'.direction, t.line⟩

/-- What is taken as a transition, to the end of its line, is a transition line. -/
theorem TransitionText.sound {t : DraftTransition} {t' : TransitionLine}
    (h : TransitionText c t d) (hd : d.wordsAhead = []) (ht : Completes t t') :
    IsTransition c.lineHere t' ∧ Finishes c d := by
  obtain ⟨hline, c1, c2, c3, c4, h1, h2, h3, h4, h5, -⟩ := h
  obtain ⟨hdir, ht'⟩ := ht
  obtain ⟨letter, hletter, hchars⟩ := ofToken?_eq_some_iff.mp hdir
  have hname : ∀ x, isNameChar x = true → isVisible x = true := fun _ => isVisible_of_isNameChar
  have hpass := (h1.passes hname h2.atGap).trans ((h2.passes (fun _ => id) h3.atGap).trans
    ((h3.passes hname h4.atGap).trans ((h4.passes (fun _ => id) h5.atGap).trans
      (h5.passes (fun _ => id) (atGap_of_wordsAhead_eq_nil hd)))))
  have hwords := hpass.words
  rw [hd, hchars] at hwords
  obtain ⟨m, b, -, h3⟩ := h3
  rw [ht']
  exact ⟨⟨h1.flush hname, h1.all, h3.all, ⟨letter, hletter, hwords⟩, hline.symm⟩, hd, hpass.lines⟩

/-- A transition line is taken as a transition, to its end. -/
theorem TransitionText.complete {t' : TransitionLine} (h : IsTransition c.lineHere t') :
    ∃ t d, TransitionText c t d ∧ Completes t t' ∧ Finishes c d := by
  obtain ⟨hflush, hstate, hnext, ⟨letter, hletter, hwords⟩, hnumber⟩ := h
  have hname : ∀ x, isNameChar x = true → isVisible x = true := fun _ => isVisible_of_isNameChar
  obtain ⟨c1, h1, g1, w1, l1⟩ := exists_piece hname hflush hwords hstate
  obtain ⟨c2, h2, g2, w2, l2⟩ := exists_column (fun _ => id) g1 w1
    (isVisible_of_wordsAhead_eq_cons w1)
  obtain ⟨c3, h3, g3, w3, l3⟩ := exists_column hname g2 w2 hnext
  obtain ⟨c4, h4, g4, w4, l4⟩ := exists_column (fun _ => id) g3 w3
    (isVisible_of_wordsAhead_eq_cons w3)
  obtain ⟨d, h5, -, w5, l5⟩ := exists_column (fun _ => id) g4 w4
    (isVisible_of_wordsAhead_eq_cons w4)
  obtain ⟨dir, hchars, hdir⟩ := h5.exists_token
  rw [← hchars] at h5
  refine ⟨⟨c.line, t'.state, t'.read, t'.next, t'.write, dir⟩, d,
    ⟨rfl, c1, c2, c3, c4, h1, h2, h3, h4, h5, hdir⟩, ⟨?_, ?_⟩, w5,
    l1.trans (l2.trans (l3.trans (l4.trans l5)))⟩
  · exact ofToken?_eq_some_iff.mpr ⟨letter, hletter, hchars⟩
  · show t' = ⟨t'.state, t'.read, t'.next, t'.write, t'.direction, c.line⟩
    rw [show c.line = t'.line from hnumber.symm]

end Transition

end SingleTape.Description
