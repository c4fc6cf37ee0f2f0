import SingleTape.Description.Grammar
import SingleTape.Proofs.Description.Format
import SingleTape.Proofs.Description.Matching
import SingleTape.Proofs.Description.Piece

/-!
# What the rules take off

For every rule of the format the relation between the place where it is tried, what it reads, and
the place after it.
-/

namespace SingleTape.Description

open Cursor

def Token.EndsAt (t : Token) (d : Cursor) : Prop := t.start + t.chars.length = d.pos

namespace Cursor

variable {c d : Cursor} {p : Char → Bool} {w : List Char}

theorem Piece.pos (h : Piece p c w d) : d.pos = c.pos + w.length := by
  rw [h.place]
  rfl

theorem Piece.exists_token (h : Piece p c w d) : ∃ t : Token, t.chars = w ∧ t.EndsAt d :=
  ⟨⟨c.pos, w⟩, rfl, h.pos.symm⟩

theorem Column.exists_token (h : Column p c w d) : ∃ t : Token, t.chars = w ∧ t.EndsAt d := by
  obtain ⟨m, b, -, hw⟩ := h
  exact hw.exists_token

/-- Blanks are taken off exactly when there is a piece of them. -/
theorem blanks?_eq_some_iff : c.blanks? = some d ↔ ∃ b, Piece isBlank c b d := by
  simp only [piece_iff]
  cases hb : c.rest.takeWhile isBlank with
  | nil => simp [blanks?, span, hb]
  | cons x b => simp [blanks?, span, hb, eq_comm]

/-- The letters of a word are as many as the word has, and they may be upper case. -/
theorem word?_eq_some_iff : c.word? w = some d ↔
    ∃ v, Spells v w ∧ c.rest = v ++ d.rest ∧ d = c.skip v d.rest := by
  unfold word?
  constructor
  · intro h
    by_cases hw : (c.rest.take w.length).map Char.toLower = w
    · rw [if_pos hw] at h
      cases h
      exact ⟨_, hw, (List.take_append_drop w.length c.rest).symm, rfl⟩
    · rw [if_neg hw] at h
      cases h
  · rintro ⟨v, hv, hrest, hd⟩
    have hlen : w.length = v.length := by rw [← hv, List.length_map]
    have htake : c.rest.take w.length = v := by rw [hrest, hlen, List.take_left]
    have hdrop : c.rest.drop w.length = d.rest := by rw [hrest, hlen, List.drop_left]
    rw [htake, hdrop, hd]
    exact if_pos hv

end Cursor

namespace Takes

theorem token (p : Char → Bool) :
    Takes (Matcher.token p) fun c t d => Piece p c t.chars d ∧ t.EndsAt d := by
  intro c a t d
  show (if (c.rest.takeWhile p).isEmpty then none else some ((c.span p).1, (c.span p).2)) =
    some (t, d) ↔ _
  have hstart : (c.span p).1.EndsAt (c.span p).2 := rfl
  -- Without a character of the kind both sides fail.
  by_cases hne : c.rest.takeWhile p = []
  · rw [if_pos (List.isEmpty_iff.mpr hne)]
    constructor
    · intro h
      cases h
    · rintro ⟨h, -⟩
      exact absurd hne (piece_iff.mp h).1
  · rw [if_neg (mt List.isEmpty_iff.mp hne)]
    constructor
    · intro h
      cases h
      exact ⟨piece_span hne, hstart⟩
    · rintro ⟨h, hd⟩
      obtain ⟨-, hchars, rfl⟩ := piece_iff.mp h
      -- Where a token ends and how long it is tell where it began.
      have hpos : t.start = (c.span p).1.start := by
        have hlen : t.chars.length = (c.span p).1.chars.length := by rw [hchars]; rfl
        unfold Token.EndsAt at hd hstart
        omega
      cases t
      cases hpos
      cases hchars
      rfl

/-- A token of which only the characters are kept. -/
theorem text (p : Char → Bool) : Takes (do return (← Matcher.token p).text : Matcher String)
    fun c s d => Piece p c s.toList d := by
  apply ((token p).bind fun t => pure t.text).congr
  intro c s d
  constructor
  · rintro ⟨t, e, ⟨ht, -⟩, rfl, rfl⟩
    rw [Token.text, String.toList_ofList]
    exact ht
  · intro h
    obtain ⟨t, ht, hd⟩ := h.exists_token
    refine ⟨t, d, ⟨by rw [ht]; exact h, hd⟩, ?_, rfl⟩
    rw [Token.text, ht, String.ofList_toList]

end Takes

def HeaderText (c : Cursor) (t : Token) (d : Cursor) : Prop :=
  ∃ e, c.word? Grammar.statesWord = some e ∧ Column Char.isDigit e t.chars d ∧ t.EndsAt d

def MarkerText (c : Cursor) (m : Marker) (d : Cursor) : Prop :=
  ∃ g b, Piece isBlank c b g ∧ g.rest = m.char :: d.rest ∧ d = g.skip [m.char] d.rest

/-- A name, with a mark if there is one; not the beginning of an alphabet line. -/
def StateText (c : Cursor) (s : StateLine) (d : Cursor) : Prop :=
  Grammar.alphabetStart? c = none ∧ ∃ e, Piece isNameChar c s.name.toList e ∧
    ((∃ m, s.marker = some m ∧ MarkerText e m d) ∨
      s.marker = none ∧ e = d ∧ ∀ m f, ¬ MarkerText e m f)

def AlphabetText (c : Cursor) (x : Token × List Symbol) (d : Cursor) : Prop :=
  ∃ e f, c.word? Grammar.alphabetWord = some e ∧ Column Char.isDigit e x.1.chars f ∧
    x.1.EndsAt f ∧ Repeats (fun c s d => Column isVisible c (String.toList s) d) f x.2 d

def TransitionText (c : Cursor) (t : DraftTransition) (d : Cursor) : Prop :=
  c.line = t.line ∧ ∃ c1 c2 c3 c4, Piece isNameChar c t.state.toList c1 ∧
    Column isVisible c1 t.read.toList c2 ∧ Column isNameChar c2 t.next.toList c3 ∧
    Column isVisible c3 t.write.toList c4 ∧ Column isVisible c4 t.direction.chars d ∧
    t.direction.EndsAt d

def StateRow (c : Cursor) (s : StateLine) (d : Cursor) : Prop :=
  ∃ e, StateText c.skipEmptyLines s e ∧ e.lineEnd? = some d

def TransitionRow (c : Cursor) (t : DraftTransition) (d : Cursor) : Prop :=
  ∃ e, c.lineEnd? = some e ∧ TransitionText e.skipEmptyLines t d

def ProgramText (c : Cursor) (x : Draft) (d : Cursor) : Prop :=
  ∃ c1 c2 c3 c4 c5, HeaderText c.skipEmptyLines x.stateCount c1 ∧ c1.lineEnd? = some c2 ∧
    Repeats StateRow c2 x.states c3 ∧
    AlphabetText c3.skipEmptyLines (x.alphabetCount, x.alphabet) c4 ∧
    Repeats TransitionRow c4 x.transitions c5 ∧ c5.skipSpace.rest = [] ∧ c5.skipSpace = d

section Lengths

variable {c d : Cursor}

/-- Skipping empty lines never makes the text longer. -/
theorem length_rest_skipEmptyLines_le (c : Cursor) :
    c.skipEmptyLines.rest.length ≤ c.rest.length := by
  fun_induction skipEmptyLines c with
  | case1 c d h hlt ih => omega
  | case2 c h => exact Nat.le_refl _

/-- A state never makes the text longer. -/
theorem StateText.length_rest_le {s : StateLine} (h : StateText c s d) :
    d.rest.length ≤ c.rest.length := by
  obtain ⟨-, e, hname, ⟨m, -, g, b, hb, hm, -⟩ | ⟨-, rfl, -⟩⟩ := h
  · have h1 := hname.length_rest_lt
    have h2 := hb.length_rest_lt
    have h3 : g.rest.length = d.rest.length + 1 := by rw [hm, List.length_cons]
    omega
  · exact Nat.le_of_lt hname.length_rest_lt

/-- A row of a state takes off something, so that there are only so many rows. -/
theorem StateRow.length_rest_lt {s : StateLine} (h : StateRow c s d) :
    d.rest.length < c.rest.length := by
  obtain ⟨e, hs, he⟩ := h
  have h1 := length_rest_skipEmptyLines_le c
  have h2 := hs.length_rest_le
  have h3 := length_rest_lineEnd? he
  omega

theorem TransitionText.length_rest_lt {t : DraftTransition} (h : TransitionText c t d) :
    d.rest.length < c.rest.length := by
  obtain ⟨-, c1, c2, c3, c4, h1, h2, h3, h4, h5, -⟩ := h
  have h1 := h1.length_rest_lt
  have h2 := h2.length_rest_lt
  have h3 := h3.length_rest_lt
  have h4 := h4.length_rest_lt
  have h5 := h5.length_rest_lt
  omega

theorem TransitionRow.length_rest_lt {t : DraftTransition} (h : TransitionRow c t d) :
    d.rest.length < c.rest.length := by
  obtain ⟨e, he, ht⟩ := h
  have h1 := length_rest_lineEnd? he
  have h2 := length_rest_skipEmptyLines_le e
  have h3 := ht.length_rest_lt
  omega

end Lengths

namespace Grammar

theorem takes_gap : Takes gap fun c _ d => ∃ b, Piece isBlank c b d :=
  (Takes.take blanks?).congr fun _ _ _ => blanks?_eq_some_iff

theorem takes_word (w : List Char) : Takes (word w) fun c _ d => c.word? w = some d :=
  Takes.take _

theorem takes_name : Takes name fun c s d => Piece isNameChar c s.toList d :=
  (Takes.text isNameChar).rule .name

theorem takes_symbol : Takes symbol fun c s d => Piece isVisible c s.toList d :=
  (Takes.text isVisible).rule .symbol

theorem takes_count : Takes count fun c t d => Piece Char.isDigit c t.chars d ∧ t.EndsAt d :=
  (Takes.token Char.isDigit).rule .count

theorem takes_direction : Takes direction fun c t d => Piece isVisible c t.chars d ∧ t.EndsAt d :=
  (Takes.token isVisible).rule .direction

theorem takes_marker : Takes marker fun c m d =>
    c.rest = m.char :: d.rest ∧ d = c.skip [m.char] d.rest := by
  apply Takes.rule
  intro c a m d
  dsimp only
  -- The rest begins with a plus, with a minus, or with neither.
  split
  case h_1 rest heq =>
    rw [heq]
    constructor
    · intro h
      cases h
      exact ⟨rfl, rfl⟩
    · rintro ⟨hr, hd⟩
      cases m with
      | accept => rw [hd, (List.cons.inj hr).2, Marker.char]
      | reject => cases (List.cons.inj hr).1
  case h_2 rest heq =>
    rw [heq]
    constructor
    · intro h
      cases h
      exact ⟨rfl, rfl⟩
    · rintro ⟨hr, hd⟩
      cases m with
      | accept => cases (List.cons.inj hr).1
      | reject => rw [hd, (List.cons.inj hr).2, Marker.char]
  case h_3 hplus hminus =>
    constructor
    · intro h
      cases h
    · rintro ⟨hr, -⟩
      cases m with
      | accept => exact absurd hr (hplus _)
      | reject => exact absurd hr (hminus _)

theorem takes_header : Takes header HeaderText := by
  apply Takes.rule
  apply ((takes_word statesWord).bind fun _ => takes_gap.bind fun _ => takes_count).congr
  intro c t d
  constructor
  · rintro ⟨-, e, he, -, m, ⟨b, hb⟩, ht, hd⟩
    exact ⟨e, he, ⟨m, b, hb, ht⟩, hd⟩
  · rintro ⟨e, he, ⟨m, b, hb, ht⟩, hd⟩
    exact ⟨(), e, he, (), m, ⟨b, hb⟩, ht, hd⟩

theorem takes_state : Takes state StateText := by
  apply Takes.rule
  have hmark := (takes_gap.bind fun _ => takes_marker).congr (Q := MarkerText) fun c m d => by
    constructor
    · rintro ⟨-, g, ⟨b, hb⟩, hm⟩
      exact ⟨g, b, hb, hm⟩
    · rintro ⟨g, b, hb, hm⟩
      exact ⟨(), g, ⟨b, hb⟩, hm⟩
  apply ((Takes.notAhead alphabetStart?).bind fun _ => takes_name.bind fun s =>
    hmark.optional.bind fun m => Takes.pure (StateLine.mk s m)).congr
  intro c s d
  constructor
  · rintro ⟨-, _, ⟨hno, rfl⟩, name, e, hname, marker, f, hmarker, rfl, rfl⟩
    exact ⟨hno, e, hname, hmarker⟩
  · rintro ⟨hno, e, hname, hmarker⟩
    exact ⟨(), c, ⟨hno, rfl⟩, s.name, e, hname, s.marker, d, hmarker, rfl, rfl⟩

theorem takes_column_symbol :
    Takes (do gap; symbol) fun c s d => Column isVisible c s.toList d := by
  apply (takes_gap.bind fun _ => takes_symbol).congr
  intro c s d
  constructor
  · rintro ⟨-, m, ⟨b, hb⟩, hs⟩
    exact ⟨m, b, hb, hs⟩
  · rintro ⟨m, b, hb, hs⟩
    exact ⟨(), m, ⟨b, hb⟩, hs⟩

theorem takes_alphabet : Takes alphabet AlphabetText := by
  apply Takes.rule
  have hsymbols := takes_column_symbol.many fun h => h.length_rest_lt
  apply ((takes_word alphabetWord).bind fun _ => takes_gap.bind fun _ => takes_count.bind fun n =>
    hsymbols.bind fun symbols => Takes.pure (n, symbols)).congr
  rintro c ⟨n, symbols⟩ d
  constructor
  · rintro ⟨-, e, he, -, m, ⟨b, hb⟩, n, f, ⟨hn, hf⟩, symbols, g, hs, hx, rfl⟩
    cases hx
    exact ⟨e, f, he, ⟨m, b, hb, hn⟩, hf, hs⟩
  · rintro ⟨e, f, he, ⟨m, b, hb, hn⟩, hf, hs⟩
    exact ⟨(), e, he, (), m, ⟨b, hb⟩, n, f, ⟨hn, hf⟩, symbols, d, hs, rfl, rfl⟩

theorem takes_transition : Takes transition TransitionText := by
  apply Takes.rule
  apply (Takes.line.bind fun line => takes_name.bind fun state => takes_gap.bind fun _ =>
    takes_symbol.bind fun read => takes_gap.bind fun _ => takes_name.bind fun next =>
    takes_gap.bind fun _ => takes_symbol.bind fun write => takes_gap.bind fun _ =>
    takes_direction.bind fun direction =>
      Takes.pure (DraftTransition.mk line state read next write direction)).congr
  intro c t d
  constructor
  · rintro ⟨_, _, ⟨rfl, rfl⟩, _, c1, h1, -, m1, ⟨b1, g1⟩, _, c2, h2, -, m2, ⟨b2, g2⟩, _, c3, h3,
      -, m3, ⟨b3, g3⟩, _, c4, h4, -, m4, ⟨b4, g4⟩, _, c5, ⟨h5, hd⟩, rfl, rfl⟩
    exact ⟨rfl, c1, c2, c3, c4, h1, ⟨m1, b1, g1, h2⟩, ⟨m2, b2, g2, h3⟩, ⟨m3, b3, g3, h4⟩,
      ⟨m4, b4, g4, h5⟩, hd⟩
  · rintro ⟨hline, c1, c2, c3, c4, h1, ⟨m1, b1, g1, h2⟩, ⟨m2, b2, g2, h3⟩, ⟨m3, b3, g3, h4⟩,
      ⟨m4, b4, g4, h5⟩, hd⟩
    refine ⟨c.line, c, ⟨rfl, rfl⟩, t.state, c1, h1, (), m1, ⟨b1, g1⟩, t.read, c2, h2, (), m2,
      ⟨b2, g2⟩, t.next, c3, h3, (), m3, ⟨b3, g3⟩, t.write, c4, h4, (), m4, ⟨b4, g4⟩, t.direction,
      d, ⟨h5, hd⟩, ?_, rfl⟩
    rw [hline]

theorem takes_endOfText : Takes endOfText fun c _ d => c.rest = [] ∧ c = d := by
  apply Takes.rule
  intro c a x d
  show (if c.rest.isEmpty then some ((), c) else none) = some ((), d) ↔ _
  simp

theorem takes_lineEnd : Takes lineEnd fun c _ d => c.lineEnd? = some d := Takes.take _

theorem takes_emptyLines : Takes emptyLines fun c _ d => c.skipEmptyLines = d := Takes.goTo _

theorem takes_stateRow : Takes (do emptyLines; let s ← state; lineEnd; return s) StateRow := by
  apply (takes_emptyLines.bind fun _ => takes_state.bind fun s => takes_lineEnd.bind fun _ =>
    Takes.pure s).congr
  intro c s d
  constructor
  · rintro ⟨-, _, rfl, _, e, hs, -, _, he, rfl, rfl⟩
    exact ⟨e, hs, he⟩
  · rintro ⟨e, hs, he⟩
    exact ⟨(), _, rfl, s, e, hs, (), d, he, rfl, rfl⟩

theorem takes_transitionRow : Takes (do lineEnd; emptyLines; transition) TransitionRow := by
  apply (takes_lineEnd.bind fun _ => takes_emptyLines.bind fun _ => takes_transition).congr
  intro c t d
  constructor
  · rintro ⟨-, e, he, -, _, rfl, ht⟩
    exact ⟨e, he, ht⟩
  · rintro ⟨e, he, ht⟩
    exact ⟨(), e, he, (), _, rfl, ht⟩

/-- The matcher of descriptions takes a program. -/
theorem takes_program : Takes program ProgramText := by
  apply Takes.rule
  have hstates := takes_stateRow.many fun h => h.length_rest_lt
  have htransitions := takes_transitionRow.many fun h => h.length_rest_lt
  apply (takes_emptyLines.bind fun _ => takes_header.bind fun n => takes_lineEnd.bind fun _ =>
    hstates.bind fun states => takes_emptyLines.bind fun _ => takes_alphabet.bind fun x =>
    htransitions.bind fun transitions => (Takes.goTo skipSpace).bind fun _ =>
    takes_endOfText.bind fun _ => Takes.pure (Draft.mk n states x.1 x.2 transitions)).congr
  intro c x d
  constructor
  · rintro ⟨-, _, rfl, _, c1, h1, -, c2, h2, _, c3, h3, -, _, rfl, _, c4, h4, _, c5, h5,
      -, _, rfl, -, _, ⟨h6, rfl⟩, rfl, rfl⟩
    exact ⟨c1, c2, c3, c4, c5, h1, h2, h3, h4, h5, h6, rfl⟩
  · rintro ⟨c1, c2, c3, c4, c5, h1, h2, h3, h4, h5, h6, rfl⟩
    exact ⟨(), _, rfl, x.stateCount, c1, h1, (), c2, h2, x.states, c3, h3, (), _, rfl,
      (x.alphabetCount, x.alphabet), c4, h4, x.transitions, c5, h5, (), _, rfl, (), _, ⟨h6, rfl⟩,
      rfl, rfl⟩

end Grammar

/-- A draft is what the program rule reads from the beginning of the text. -/
theorem draft_eq_ok_iff {text : List Char} {x : Draft} :
    draft text = .ok x ↔ ∃ d, ProgramText { rest := text } x d := by
  unfold draft
  obtain ⟨y, e, a, h, hy⟩ | ⟨⟨a, h⟩, hno⟩ := Grammar.takes_program.cases { rest := text } {}
  · simp only [h]
    constructor
    · intro hx
      cases hx
      exact ⟨e, hy⟩
    · rintro ⟨d, hd⟩
      obtain ⟨rfl, -⟩ := Grammar.takes_program.unique hy hd
      rfl
  · simp only [h]
    constructor
    · intro hx
      cases hx
    · rintro ⟨d, hd⟩
      exact absurd hd (hno x d)

end SingleTape.Description
