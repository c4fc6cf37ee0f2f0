import SingleTape.Proofs.Description.Continuing

/-!
# The parts of a description, one after the other

For the lists of parts that are expected somewhere in a description: how what is derived from them
begins, which parts a repetition cannot have taken before them, and that they can be derived from
something.
-/

namespace SingleTape.Description

open Cursor Phrase

namespace Phrase

def belowAlphabet : List Phrase := [transitions, space, endOfText]

def belowHeader : List Phrase := states :: emptyLines :: alphabet :: belowAlphabet

def columns : List Phrase := [name, gap, symbol, gap, name, gap, symbol, gap, direction]

end Phrase

section Rules

variable {Ks : List Phrase}

theorem continues_header :
    Continues (word Grammar.statesWord :: gap :: count :: Ks) (header :: Ks) :=
  continues_named [word Grammar.statesWord, gap, count]

theorem continues_alphabet :
    Continues (word Grammar.alphabetWord :: gap :: count :: many [gap, symbol] :: Ks)
      (Phrase.alphabet :: Ks) :=
  continues_named [word Grammar.alphabetWord, gap, count, many [gap, symbol]]

theorem continues_state :
    Continues (notAhead Grammar.alphabetStart? :: name :: optional [gap, marker] :: Ks)
      (state :: Ks) :=
  continues_named [notAhead Grammar.alphabetStart?, name, optional [gap, marker]]

theorem continues_transition : Continues (columns ++ Ks) (transition :: Ks) :=
  continues_named columns

end Rules

section Begins

variable {Ks : List Phrase}

def LineOver (text : List Char) : Prop := words (firstLine text) = []

theorem LineOver.stops {text : List Char} (h : LineOver text) : Stops isVisible text :=
  atGap_of_wordsAhead_eq_nil (c := { rest := text }) h

theorem lineOver_of_invisible {text : List Char} (h : ∀ x ∈ text, isVisible x = false) :
    LineOver text :=
  (wordsAhead_and_linesBelow_eq_nil_iff (c := { rest := text }).mpr h).1

theorem begins_lineEnd : Begins (lineEnd :: Ks) LineOver := by
  intro c ms e h
  obtain ⟨d, hd, -⟩ := inOrder_take_cons.mp h
  exact (linesBelow_of_lineEnd? hd).1

/-- Where only space is left, no character is visible any more. -/
theorem begins_space : Begins (space :: endOfText :: Ks) fun t => ∀ x ∈ t, isVisible x = false := by
  intro c ms e h
  obtain ⟨_, d, _, ⟨_, hend, -⟩, -, -⟩ := inOrder_goTo_cons.mp h
  obtain ⟨hnil, -⟩ := inOrder_singleton.mp hend
  exact wordsAhead_and_linesBelow_eq_nil_iff.mp (skipSpace_rest_eq_nil_iff.mp hnil)

theorem begins_belowAlphabet : Begins belowAlphabet LineOver := by
  rintro c _ e ⟨_, d, _, htransitions, hspace, rfl⟩
  cases htransitions with
  | stop _ => exact lineOver_of_invisible (begins_space c _ e hspace)
  | more hrow _ => exact begins_lineEnd c _ _ hrow

theorem begins_cells : Begins (many [gap, symbol] :: belowAlphabet) (Stops isVisible) := by
  rintro c _ e ⟨_, d, _, hcells, hbelow, rfl⟩
  cases hcells with
  | stop _ => exact (begins_belowAlphabet c _ e hbelow).stops
  | more hcell _ => exact begins_gap c _ _ hcell

theorem begins_mark : Begins (optional [gap, marker] :: lineEnd :: Ks) (Stops isVisible) := by
  rintro c _ e ⟨_, d, _, hmark | ⟨rfl, rfl, -⟩, hend, rfl⟩
  · exact begins_gap c _ _ hmark
  · exact (begins_lineEnd c _ e hend).stops

theorem begins_token_of {p : Char → Bool} (hp : ∀ c, p c = true → isVisible c = true) :
    Begins (token p :: Ks) (Heads isVisible) :=
  begins_token.mono fun _ h => h.mono hp

theorem begins_bare : Begins (notAhead blanks? :: optional [gap, marker] :: lineEnd :: Ks)
    fun t => Stops isVisible t ∧ firstLine t = [] := by
  intro c ms e h
  obtain ⟨hno, hmark⟩ := inOrder_notAhead_cons.mp h
  have hgap := begins_mark c ms e hmark
  exact ⟨hgap, firstLine_eq_nil_of_blanks? hgap hno⟩

theorem begins_name : Begins (name :: Ks) (Heads isVisible) :=
  (begins_token_of fun _ => isVisible_of_isNameChar).named

theorem begins_symbol : Begins (symbol :: Ks) (Heads isVisible) := begins_token.named

theorem begins_direction : Begins (direction :: Ks) (Heads isVisible) := begins_token.named

theorem begins_count : Begins (count :: Ks) (Heads isVisible) :=
  (begins_token_of fun _ => isVisible_of_isDigit).named

theorem begins_marker : Begins (marker :: Ks) (Heads isVisible) := begins_sign.named

theorem begins_header : Begins (header :: Ks) (Heads isVisible) :=
  (begins_word (by decide) (by decide)).named

theorem begins_alphabet : Begins (Phrase.alphabet :: Ks) (Heads isVisible) :=
  (begins_word (by decide) (by decide)).named

theorem begins_transition : Begins (transition :: Ks) (Heads isVisible) := begins_name.named

theorem begins_state : Begins (state :: Ks) (Heads isVisible) := by
  apply Begins.named
  intro c ms e h
  exact begins_name c ms e (inOrder_notAhead_cons.mp h).2

theorem Begins.stops_isBlank (h : Begins Ks (Heads isVisible)) : Begins Ks (Stops isBlank) :=
  h.mono fun _ => stops_of_heads fun _ => isBlank_eq_false_of_isVisible

theorem Begins.stops_of {p : Char → Bool} (h : Begins Ks (Stops isVisible))
    (hp : ∀ c, p c = true → isVisible c = true) : Begins Ks (Stops p) := by
  refine h.mono fun t ht c hc => ?_
  cases hpc : p c with
  | false => rfl
  | true =>
    have hv := ht c hc
    rw [hp c hpc] at hv
    cases hv

end Begins

section Excludes

variable {c d : Cursor} {ms : List Mark} {Ks : List Phrase}

/-- Something visible is part of a word on the line. -/
theorem wordsAhead_ne_nil_of_heads (h : Heads isVisible c.rest) : c.wordsAhead ≠ [] := by
  intro hnil
  obtain ⟨x, hx, hv⟩ := h
  rw [atGap_of_wordsAhead_eq_nil hnil x hx] at hv
  cases hv

/-- Where an alphabet line follows there is no state line. -/
theorem excludes_state :
    Excludes (emptyLines :: Phrase.alphabet :: belowAlphabet) [emptyLines, state, lineEnd] := by
  intro c ms e hms xs d hxs
  obtain ⟨_, _, _, ⟨_, halphabet, -⟩, -⟩ := inOrder_goTo_cons.mp hms
  obtain ⟨_, _, _, ⟨_, hstate, -⟩, -⟩ := inOrder_goTo_cons.mp hxs
  obtain ⟨e1, hword, hrest⟩ := inOrder_take_cons.mp halphabet
  obtain ⟨e2, hgap, -⟩ := inOrder_take_cons.mp hrest
  obtain ⟨hno, -⟩ := inOrder_notAhead_cons.mp hstate
  have hstart : Grammar.alphabetStart? c.skipEmptyLines = some e2 :=
    Option.bind_eq_some_iff.mpr ⟨e1, hword, hgap⟩
  rw [hstart] at hno
  cases hno

theorem excludes_cell : Excludes belowAlphabet [gap, symbol] := by
  intro c ms e hms xs d hcell
  have hover := begins_belowAlphabet c ms e hms
  obtain ⟨y, m, b, hb, hsymbol⟩ :=
    (Grammar.follows_cell.exists_iff Grammar.takes_column_symbol).mpr ⟨xs, hcell⟩
  have hwords := (Piece.passes_gap hb).words.symm.trans hover
  exact wordsAhead_ne_nil_of_heads
    (by rw [hsymbol.rest]; exact heads_append hsymbol.ne_nil hsymbol.all) hwords

theorem excludes_transition :
    Excludes [space, endOfText] [lineEnd, emptyLines, transition] := by
  intro c ms e hms xs d hxs
  obtain ⟨f, hend, hrest⟩ := inOrder_take_cons.mp hxs
  have hrow := inOrder_goTo_cons.mp hrest
  have hnone := (wordsAhead_and_linesBelow_eq_nil_iff.mpr (begins_space c ms e hms)).2
  have hwords := wordsAhead_ne_nil_of_heads (begins_transition _ _ d hrow)
  rw [(linesBelow_of_lineEnd? hend).2, linesAhead_of_skipEmptyLines hwords] at hnone
  cases hnone

theorem excludes_mark : Excludes (lineEnd :: Ks) [gap, marker] := by
  intro c ms e hms xs d hxs
  obtain ⟨g, hgap, hmarker⟩ := inOrder_take_cons.mp hxs
  obtain ⟨b, hb⟩ := blanks?_eq_some_iff.mp hgap
  have hwords := hb.passes_gap.words.symm.trans (begins_lineEnd c ms e hms)
  exact wordsAhead_ne_nil_of_heads (begins_marker g _ d hmarker) hwords

end Excludes

section Completable

variable {Ks : List Phrase}

theorem Completable.token {p : Char → Bool} {r : Rule} (x : Char) (hx : p x = true)
    (hp : ∀ c, p c = true → isVisible c = true) (h : Completable Ks)
    (hK : Begins Ks (Stops isVisible)) : Completable (named r [token p] :: Ks) :=
  h.reads (hK.stops_of hp) (reads_token (w := [x]) (by simp) (by simpa using hx)).named

theorem Completable.gap (h : Completable Ks) (hK : Begins Ks (Heads isVisible)) :
    Completable (gap :: Ks) :=
  h.reads hK.stops_isBlank (reads_gap (w := [' ']) (by simp) (by simp [isBlank]))

theorem Completable.lineEnd (h : Completable Ks) (hK : Begins Ks (Heads isVisible)) :
    Completable (lineEnd :: emptyLines :: Ks) :=
  h.reads hK (reads_lineEnd (w := ['\n']) (by simp) .lineFeed)

theorem Completable.word {w : List Char} (h : Completable Ks) (hw : Spells w w) :
    Completable (word w :: Ks) :=
  h.reads (fun _ _ _ _ => trivial) (reads_word hw)

theorem completable_belowAlphabet : Completable belowAlphabet := by
  have hspace : Completable [space, endOfText] :=
    ⟨[], fun done => ⟨_, _, inOrder_goTo_cons.mpr (inOrder_singleton.mpr
      ⟨[], inOrder_singleton.mpr ⟨rfl, rfl, rfl⟩, rfl⟩)⟩⟩
  exact hspace.mono excludes_transition.continues_many

theorem completable_cells : Completable (many [gap, symbol] :: belowAlphabet) :=
  completable_belowAlphabet.mono excludes_cell.continues_many

theorem completable_symbol : Completable (symbol :: many [gap, symbol] :: belowAlphabet) :=
  completable_cells.token 'x' (by decide) (fun _ => id) begins_cells

theorem completable_alphabetCount : Completable (count :: many [gap, symbol] :: belowAlphabet) :=
  completable_cells.token '0' (by decide) (fun _ => isVisible_of_isDigit) begins_cells

/-- An alphabet line can be completed from its beginning. -/
theorem completable_alphabet : Completable (Phrase.alphabet :: belowAlphabet) :=
  ((completable_alphabetCount.gap begins_count).word (w := Grammar.alphabetWord) rfl).mono
    continues_alphabet

theorem continues_below : Continues (emptyLines :: Phrase.alphabet :: belowAlphabet)
    belowHeader := excludes_state.continues_many

theorem completable_belowHeader : Completable (lineEnd :: belowHeader) :=
  (completable_alphabet.lineEnd begins_alphabet).mono (continues_below.append_left [lineEnd])

theorem completable_headerCount : Completable (count :: lineEnd :: belowHeader) :=
  completable_belowHeader.token '0' (by decide) (fun _ => isVisible_of_isDigit)
    (begins_lineEnd.mono fun _ => LineOver.stops)

theorem completable_header : Completable (header :: lineEnd :: belowHeader) :=
  ((completable_headerCount.gap begins_count).word (w := Grammar.statesWord) rfl).mono
    continues_header

theorem completable_marker : Completable (marker :: lineEnd :: belowHeader) :=
  completable_belowHeader.reads (fun _ _ _ _ => trivial) (reads_sign .accept).named

/-- A name, with what has to follow for it not to begin an alphabet line. -/
theorem reads_stateName {v : List Char} (hne : v ≠ []) (hv : ∀ x ∈ v, isNameChar x = true) :
    Reads [notAhead Grammar.alphabetStart?, name] v fun rest =>
      Stops isVisible rest ∧ (Spells v Grammar.alphabetWord → firstLine rest = []) := by
  rintro done rest ⟨hstops, hbare⟩
  have hstopsName : Stops isNameChar rest := by
    intro c hc
    cases hn : isNameChar c with
    | false => rfl
    | true =>
      have hvis := hstops c hc
      rw [isVisible_of_isNameChar hn] at hvis
      cases hvis
  have hpiece : Piece isNameChar (after done (v ++ rest)) v (after (done ++ v) rest) :=
    piece_after hne hv hstopsName
  obtain ⟨ms, hms⟩ := (reads_token hne hv).named (r := .name) done rest hstopsName
  exact ⟨ms, inOrder_notAhead_cons.mpr ⟨(alphabetStart?_eq_none_iff hpiece hstops).mpr hbare, hms⟩⟩

theorem completable_mark : Completable (optional [gap, marker] :: lineEnd :: belowHeader) :=
  completable_belowHeader.mono excludes_mark.continues_optional

theorem completable_stateName : Completable (notAhead Grammar.alphabetStart? :: name ::
    optional [gap, marker] :: lineEnd :: belowHeader) :=
  completable_mark.reads (begins_mark.mono fun _ h => ⟨h, fun hq => by cases hq⟩)
    (reads_stateName (v := ['q']) (by simp) (by simp [isNameChar]))

theorem completable_state : Completable (state :: lineEnd :: belowHeader) :=
  completable_stateName.mono continues_state

theorem completable_direction : Completable (direction :: belowAlphabet) :=
  completable_belowAlphabet.token 'R' (by decide) (fun _ => id)
    (begins_belowAlphabet.mono fun _ => LineOver.stops)

theorem Completable.symbol (h : Completable Ks) (hK : Begins Ks (Heads isVisible)) :
    Completable (symbol :: Phrase.gap :: Ks) :=
  (h.gap hK).token 'a' (by decide) (fun _ => id) begins_gap

theorem Completable.name (h : Completable Ks) (hK : Begins Ks (Heads isVisible)) :
    Completable (name :: Phrase.gap :: Ks) :=
  (h.gap hK).token 'q' (by decide) (fun _ => isVisible_of_isNameChar) begins_gap

theorem completable_transition : Completable (transition :: belowAlphabet) :=
  ((((completable_direction.symbol begins_direction).name begins_symbol).symbol begins_name).name
    begins_symbol).mono continues_transition

theorem continues_program :
    Continues (emptyLines :: header :: lineEnd :: belowHeader) [program] :=
  continues_named [emptyLines, header, lineEnd, Phrase.states, emptyLines, Phrase.alphabet,
    Phrase.transitions, space, endOfText]

/-- There is a text in the format. -/
theorem completable_program : Completable [program] := by
  have hstart : Completable (emptyLines :: header :: lineEnd :: belowHeader) :=
    completable_header.reads begins_header (reads_emptyLines .nil)
  exact hstart.mono continues_program

end Completable

end SingleTape.Description
