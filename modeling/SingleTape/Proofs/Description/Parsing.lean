import SingleTape.Proofs.Attempt
import SingleTape.Proofs.Description.Rows

/-!
# Parsing accepts the format

A text is parsed into a description just if its lines, one by one, say what the description says.
No greedy choice takes what a later rule needs: a repetition of state lines stops before the
alphabet line, because that is no state line, and a repetition of transition lines stops only where
there is nothing left.
-/

namespace SingleTape.Description

open Cursor

variable {c d e : Cursor}

section Drafts

variable {text : List Char}

theorem readCount_eq_ok_iff {t : Token} {n : Nat} :
    readCount text t = .ok n ↔ Text.word? t.chars = some n := by
  unfold readCount
  cases Text.word? t.chars <;> simp

/-- A transition is read exactly when its direction is one. -/
theorem readTransition_eq_ok_iff {t : DraftTransition} {t' : TransitionLine} :
    readTransition text t = .ok t' ↔ Completes t t' := by
  unfold readTransition readDirection
  rw [bind_eq_ok_iff]
  constructor
  · rintro ⟨dir, hdir, heq⟩
    cases heq
    split at hdir
    case h_1 dir' h =>
      cases hdir
      exact ⟨h, rfl⟩
    case h_2 => cases hdir
  · rintro ⟨hdir, heq⟩
    refine ⟨t'.direction, ?_, ?_⟩
    · rw [hdir]
    · rw [heq]
      rfl

structure Fills (x : Draft) (d : Description) : Prop where
  states : Text.word? x.stateCount.chars = some d.declaredStates
  alphabet : Text.word? x.alphabetCount.chars = some d.declaredAlphabet
  transitions : List.Forall₂ Completes x.transitions d.transitions
  eq : d = ⟨d.declaredStates, x.states, d.declaredAlphabet, x.alphabet, d.transitions⟩

/-- A draft makes the description that fills it in. -/
theorem ofDraft_eq_ok_iff {x : Draft} {d : Description} :
    ofDraft text x = .ok d ↔ Fills x d := by
  unfold ofDraft
  simp only [bind_eq_ok_iff, readCount_eq_ok_iff, mapM_eq_ok_iff, readTransition_eq_ok_iff]
  constructor
  · rintro ⟨n, hn, k, hk, ts, hts, heq⟩
    cases heq
    exact ⟨hn, hk, hts, rfl⟩
  · rintro ⟨hn, hk, hts, heq⟩
    refine ⟨_, hn, _, hk, _, hts, ?_⟩
    rw [heq]
    rfl

/-- A text is read exactly when it matches and its draft can be filled in. -/
theorem ofChars_eq_ok_iff {d : Description} :
    ofChars text = .ok d ↔ ∃ x e, ProgramText { rest := text } x e ∧ Fills x d := by
  have hdraft (x : Draft) : draft text = .ok x ↔ ∃ e, ProgramText { rest := text } x e :=
    draft_eq_ok_iff
  unfold ofChars
  -- There is one draft at most, so the description is the one that fills it.
  cases hd : draft text with
  | error a =>
    rw [hd] at hdraft
    constructor
    · intro h
      cases h
    · rintro ⟨x, e, hx, -⟩
      cases (hdraft x).mpr ⟨e, hx⟩
  | ok y =>
    rw [hd] at hdraft
    constructor
    · intro h
      obtain ⟨e, he⟩ := (hdraft y).mp rfl
      exact ⟨y, e, he, ofDraft_eq_ok_iff.mp h⟩
    · rintro ⟨x, e, hx, hfills⟩
      cases (hdraft x).mpr ⟨e, hx⟩
      exact ofDraft_eq_ok_iff.mpr hfills

end Drafts

section Rows

variable {l : Line} {ls : List Line}

/-- A line that is read to its end is the next line, and the lines below it come after. -/
theorem linesAhead_of_finishes (h : Finishes c.skipEmptyLines d)
    (hne : words c.skipEmptyLines.lineHere.chars ≠ []) :
    c.linesAhead = c.skipEmptyLines.lineHere :: d.linesBelow := by
  rw [linesAhead_of_skipEmptyLines hne, h.lines]
  rfl

/-- A line with no more words and lines below it comes to its end. -/
theorem exists_lineEnd? (hd : d.wordsAhead = []) (h : d.linesBelow ≠ []) :
    ∃ e, d.lineEnd? = some e ∧ d.linesBelow = e.linesAhead := by
  cases he : d.lineEnd? with
  | none => exact absurd (linesBelow_of_lineEnd?_eq_none he hd) h
  | some e => exact ⟨e, rfl, (linesBelow_of_lineEnd? he).2⟩

/-- An alphabet line is no state line. -/
theorem IsAlphabet.not_isState {n : Nat} {symbols : List Symbol} (h : IsAlphabet l n symbols)
    (s : StateLine) : ¬ IsState l s := by
  intro hs
  obtain ⟨w, digits, hwords, -, hn⟩ := h.words
  have hmark := hs.words
  rw [hwords] at hmark
  cases hm : s.marker with
  | none =>
    rw [hm] at hmark
    cases hmark
  | some m =>
    rw [hm] at hmark
    have hdigits : digits = [m.char] := (List.cons.inj (List.cons.inj hmark).2).1
    have hdigit := hn.decimal m.char (by simp [hdigits])
    cases m <;> revert hdigit <;> decide

theorem StateRow.sound {s : StateLine} (h : StateRow c s e) :
    ∃ l, c.linesAhead = l :: e.linesAhead ∧ IsState l s := by
  obtain ⟨d, hs, he⟩ := h
  obtain ⟨hd, hlines⟩ := linesBelow_of_lineEnd? he
  obtain ⟨hstate, hfinish⟩ := hs.sound hd
  refine ⟨_, ?_, hstate⟩
  rw [linesAhead_of_finishes hfinish (by simp [hstate.words]), hlines]

theorem StateRow.complete {s : StateLine} (h : c.linesAhead = l :: ls) (hne : ls ≠ [])
    (hs : IsState l s) : ∃ e, StateRow c s e ∧ e.linesAhead = ls := by
  obtain ⟨rfl, hbelow⟩ := linesAhead_eq_cons h
  obtain ⟨d, htext, hfinish⟩ := StateText.complete hs
  have hlines : d.linesBelow = ls := by rw [← hfinish.lines, hbelow]
  obtain ⟨e, he, heq⟩ := exists_lineEnd? hfinish.words (by rw [hlines]; exact hne)
  exact ⟨e, ⟨d, htext, he⟩, by rw [← heq, hlines]⟩

/-- Rows of states are so many lines of states. -/
theorem states_sound {states : List StateLine} (h : Repeats StateRow c states d) :
    ∃ ls, c.linesAhead = ls ++ d.linesAhead ∧ List.Forall₂ IsState ls states := by
  induction h with
  | stop _ => exact ⟨[], rfl, .nil⟩
  | more hrow _ ih =>
    obtain ⟨l, hl, hs⟩ := hrow.sound
    obtain ⟨ls, hls, hall⟩ := ih
    exact ⟨l :: ls, by rw [hl, hls, List.cons_append], .cons hs hall⟩

/-- Lines of states are taken as rows up to the first line that is none. -/
theorem states_complete {states : List StateLine} {below : List Line}
    (h : c.linesAhead = ls ++ l :: below) (hls : List.Forall₂ IsState ls states)
    (hl : ∀ s, ¬ IsState l s) :
    ∃ d, Repeats StateRow c states d ∧ d.linesAhead = l :: below := by
  induction hls generalizing c with
  | nil =>
    refine ⟨c, .stop ?_, h⟩
    intro s e hrow
    obtain ⟨l', hl', hs⟩ := hrow.sound
    rw [h] at hl'
    cases (List.cons.inj hl').1
    exact hl s hs
  | cons hs _ ih =>
    obtain ⟨e, hrow, he⟩ := StateRow.complete h (by simp) hs
    obtain ⟨d, hrows, hd⟩ := ih he
    exact ⟨d, .more hrow hrows, hd⟩

/-- A transition begins with a word. -/
theorem TransitionText.wordsAhead_ne_nil {t : DraftTransition} (h : TransitionText c t d) :
    c.wordsAhead ≠ [] := by
  obtain ⟨-, e, _, _, _, hname, hcol, -⟩ := h
  rw [(hname.passes (fun _ => isVisible_of_isNameChar) hcol.atGap).words]
  simp

/-- Rows of transitions are so many lines of transitions below this one. -/
theorem transitions_sound {ts : List DraftTransition} {ts' : List TransitionLine}
    (h : Repeats TransitionRow c ts d) (hts : List.Forall₂ Completes ts ts')
    (hd : d.wordsAhead = []) : c.wordsAhead = [] ∧
      ∃ ls, c.linesBelow = ls ++ d.linesBelow ∧ List.Forall₂ IsTransition ls ts' := by
  induction h generalizing ts' with
  | stop _ =>
    cases hts
    exact ⟨hd, [], rfl, .nil⟩
  | more hrow _ ih =>
    obtain _ | ⟨ht, hts⟩ := hts
    obtain ⟨e, he, htext⟩ := hrow
    obtain ⟨hwords, hbelow⟩ := linesBelow_of_lineEnd? he
    obtain ⟨hd', ls, hls, hall⟩ := ih hts hd
    obtain ⟨hline, hfinish⟩ := htext.sound hd' ht
    refine ⟨hwords, _ :: ls, ?_, .cons hline hall⟩
    rw [hbelow, linesAhead_of_finishes hfinish htext.wordsAhead_ne_nil, hls, List.cons_append]

/-- Lines of transitions up to the end of the text are all taken as rows. -/
theorem transitions_complete {ts' : List TransitionLine} (hc : c.wordsAhead = [])
    (hts : List.Forall₂ IsTransition c.linesBelow ts') :
    ∃ ts d, Repeats TransitionRow c ts d ∧ List.Forall₂ Completes ts ts' ∧
      d.wordsAhead = [] ∧ d.linesBelow = [] := by
  generalize hls : c.linesBelow = ls at hts
  induction hts generalizing c with
  | nil =>
    refine ⟨[], c, .stop ?_, .nil, hc, hls⟩
    rintro t d ⟨e, he, htext⟩
    have hbelow := (linesBelow_of_lineEnd? he).2
    rw [hls, linesAhead_of_skipEmptyLines htext.wordsAhead_ne_nil] at hbelow
    cases hbelow
  | cons ht _ ih =>
    obtain ⟨e, he, heq⟩ := exists_lineEnd? hc (by simp [hls])
    obtain ⟨rfl, hbelow⟩ := linesAhead_eq_cons (heq.symm.trans hls)
    obtain ⟨t, d, htext, hcompletes, hfinish⟩ := TransitionText.complete ht
    obtain ⟨ts, f, hrows, hall, hend⟩ := ih hfinish.words (hfinish.lines.symm.trans hbelow)
    exact ⟨t :: ts, f, .more ⟨e, he, htext⟩ hrows, .cons hcompletes hall, hend⟩

end Rows

section Programs

variable {text : List Char} {d : Description}

/-- A text that matches describes, line by line, what its draft is filled in to. -/
theorem ProgramText.describes {x : Draft} {f : Cursor} (h : ProgramText { rest := text } x f)
    (hx : Fills x d) : Describes text d := by
  obtain ⟨c1, c2, c3, c4, c5, hheader, hend, hstates, halphabet, htransitions, hspace, -⟩ := h
  obtain ⟨hn, hk, hts, heq⟩ := hx
  -- From the last line up: what is left after a part is on the lines below it.
  obtain ⟨h5, hbelow5⟩ := skipSpace_rest_eq_nil_iff.mp hspace
  obtain ⟨h4, transitions, hbelow4, hall⟩ := transitions_sound htransitions hts h5
  obtain ⟨halphabet, hfinish3⟩ := halphabet.sound h4 hk
  obtain ⟨_, _, hwords, -⟩ := halphabet.words
  have h3 := linesAhead_of_finishes hfinish3 (by simp [hwords])
  obtain ⟨states, h2, hallStates⟩ := states_sound hstates
  obtain ⟨h1, hbelow1⟩ := linesBelow_of_lineEnd? hend
  obtain ⟨hheader, hfinish⟩ := hheader.sound h1 hn
  obtain ⟨_, _, hwords, -⟩ := hheader.words
  have h0 := linesAhead_of_finishes hfinish (by simp [hwords])
  rw [hbelow5, List.append_nil] at hbelow4
  rw [hbelow1, h2, h3, hbelow4] at h0
  rw [heq]
  exact ⟨_, states, _, transitions, h0, hheader, hallStates, halphabet, hall⟩

/-- A text that describes a machine line by line matches. -/
theorem Describes.exists_programText (h : Describes text d) :
    ∃ x f, ProgramText { rest := text } x f ∧ Fills x d := by
  obtain ⟨header, states, alphabet, transitions, hlines, hheader, hstates, halphabet, hall⟩ := h
  obtain ⟨rfl, hbelow⟩ := linesAhead_eq_cons (c := { rest := text }) hlines
  obtain ⟨n, c1, htext, hn, hfinish⟩ := HeaderText.complete hheader
  have hbelow1 : c1.linesBelow = states ++ alphabet :: transitions := by
    rw [← hfinish.lines, hbelow]
    rfl
  obtain ⟨c2, hend, heq⟩ := exists_lineEnd? hfinish.words (by simp [hbelow1])
  obtain ⟨c3, hrows, h3⟩ := states_complete (heq.symm.trans hbelow1) hstates halphabet.not_isState
  obtain ⟨rfl, hbelow3⟩ := linesAhead_eq_cons h3
  obtain ⟨k, c4, hsymbols, hk, hfinish3⟩ := AlphabetText.complete halphabet
  have hall' : List.Forall₂ IsTransition c4.linesBelow d.transitions := by
    rw [← hfinish3.lines, hbelow3]
    exact hall
  obtain ⟨ts, c5, hts, hcompletes, h5, hbelow5⟩ := transitions_complete hfinish3.words hall'
  refine ⟨⟨n, d.states, k, d.alphabet, ts⟩, _, ⟨c1, c2, c3, c4, c5, htext, hend, hrows, hsymbols,
    hts, skipSpace_rest_eq_nil_iff.mpr ⟨h5, hbelow5⟩, rfl⟩, hn, hk, hcompletes, rfl⟩

/-- The text is read to a description exactly when its lines describe it. -/
theorem ofChars_eq_ok_iff_describes : ofChars text = .ok d ↔ Describes text d := by
  rw [ofChars_eq_ok_iff]
  constructor
  · rintro ⟨x, f, hx, hfills⟩
    exact hx.describes hfills
  · intro h
    exact h.exists_programText

end Programs

/-- Parsing a text gives a description just if the text has the format and says what the description
says. -/
theorem parse_eq_ok_iff (text : String) (d : Description) :
    parse text = .ok d ↔ Describes text.toList d := by
  unfold parse
  rw [ofChars_eq_ok_iff]
  constructor
  · rintro ⟨x, f, hx, hfills⟩
    exact hx.describes hfills
  · intro h
    exact h.exists_programText

end SingleTape.Description
