import SingleTape.Proofs.Description.Expecting

/-!
# Line ends and line numbers

There are three ways to end a line, and a text means the same whichever it uses; but only a line
feed counts for the numbers of lines. The number that a transition has is that of the line on which
the rule for it begins.
-/

namespace SingleTape.Description

open Cursor Phrase

def withLineEnds (ending text : List Char) : List Char :=
  text.flatMap fun c => if c = '\n' then ending else [c]

/-- No carriage return stands on its own. -/
def NoLoneReturn (text : List Char) : Prop :=
  ∀ before after, text = before ++ '\r' :: after → after.head? = some '\n'

section Texts

variable {text : List Char} {d : Description} {n : Nat} {c : Char}

theorem withLineEnds_cons (ending : List Char) (c : Char) (text : List Char) :
    withLineEnds ending (c :: text) =
      (if c = '\n' then ending else [c]) ++ withLineEnds ending text := rfl

/-- With a return before every line feed the lines and their numbers are the same. -/
theorem linesFrom_withLineEnds (hr : '\r' ∉ text) :
    linesFrom n (withLineEnds ['\r', '\n'] text) = linesFrom n text := by
  induction text generalizing n with
  | nil => rfl
  | cons c text ih =>
    obtain ⟨hc, htail⟩ := not_or.mp (mt List.mem_cons.mpr hr)
    rw [withLineEnds_cons]
    by_cases hn : c = '\n'
    · subst hn
      rw [if_pos rfl]
      show ⟨n, []⟩ :: linesFrom (n + 1) (withLineEnds _ text) = ⟨n, []⟩ :: linesFrom (n + 1) text
      rw [ih htail]
    · have hb : isLineBreak c = false := isLineBreak_eq_false_of_ne (Ne.symm hc) hn
      rw [if_neg hn, List.singleton_append, linesFrom_cons hb, linesFrom_cons hb, ih htail]

/-- With a return before every line feed a text describes what it did. -/
theorem describes_withLineEnds_iff (hr : '\r' ∉ text) :
    Describes (withLineEnds ['\r', '\n'] text) d ↔ Describes text d := by
  have hlines : filledLines (withLineEnds ['\r', '\n'] text) = filledLines text := by
    rw [filledLines, linesFrom_withLineEnds hr, filledLines]
  constructor
  · intro h
    exact ⟨hlines ▸ h.lines⟩
  · intro h
    exact ⟨hlines ▸ h.lines⟩

/-- With returns for line feeds the rows are the same. -/
theorem rows_withLineEnds (hr : '\r' ∉ text) : rows (withLineEnds ['\r'] text) = rows text := by
  suffices h : (withLineEnds ['\r'] text).splitOnP isLineBreak = text.splitOnP isLineBreak by
    rw [rows, h, rows]
  induction text with
  | nil => rfl
  | cons c text ih =>
    obtain ⟨hc, htail⟩ := not_or.mp (mt List.mem_cons.mpr hr)
    rw [withLineEnds_cons]
    by_cases hn : c = '\n'
    · subst hn
      rw [if_pos rfl, List.singleton_append, List.splitOnP_cons_eq_if_modifyHead,
        List.splitOnP_cons_eq_if_modifyHead, ih htail]
      rfl
    · rw [if_neg hn, List.singleton_append, List.splitOnP_cons_eq_if_modifyHead,
        List.splitOnP_cons_eq_if_modifyHead, ih htail]

/-- With returns for line feeds there are none of these left. -/
theorem lineFeed_not_mem_withLineEnds (text : List Char) : '\n' ∉ withLineEnds ['\r'] text := by
  intro h
  obtain ⟨c, -, hc⟩ := List.mem_flatMap.mp h
  split at hc
  case isTrue => simp at hc
  case isFalse hn => exact hn (List.mem_singleton.mp hc).symm

/-- Transitions carry the numbers of their lines. -/
theorem map_line_eq {ls : List Line} {ts : List TransitionLine}
    (h : List.Forall₂ IsTransition ls ts) : ts.map (·.line) = ls.map (·.number) := by
  induction h with
  | nil => rfl
  | cons hl _ ih => rw [List.map_cons, List.map_cons, hl.number, ih]

/-- The transitions have the numbers of some of the lines, in the order of the text. -/
theorem Describes.sublist_numbers (h : Describes text d) :
    List.Sublist (d.transitions.map (·.line)) ((linesFrom 1 text).map (·.number)) := by
  obtain ⟨header, states, alphabet, transitions, hlines, -, -, -, hall⟩ := h
  have hsub : List.Sublist transitions (filledLines text) := by
    rw [hlines]
    exact (List.sublist_cons_self _ _).trans (List.sublist_append_right _ _)
  rw [map_line_eq hall]
  exact (hsub.trans List.filter_sublist).map _

/-- Without line feeds there is one line number. -/
theorem Describes.onOneLine_eq (h : Describes text d) (hn : '\n' ∉ text) : d.onOneLine = d := by
  have hone : ∀ t ∈ d.transitions, { t with line := 1 } = t := by
    intro t ht
    obtain ⟨l, hl, hnumber⟩ :=
      List.mem_map.mp (h.sublist_numbers.subset (List.mem_map_of_mem ht))
    obtain ⟨before, after, rfl, hcount⟩ := exists_of_mem_linesFrom hl
    have hnone : before.count '\n' = 0 :=
      List.count_eq_zero.mpr fun hmem => hn (by simp [hmem])
    have hline : t.line = 1 := by rw [← hnumber, hcount, hnone]
    rw [← hline]
  unfold Description.onOneLine
  rw [List.map_congr_left hone, List.map_id']

/-- With returns for line feeds a text describes the same machine, all on line 1. -/
theorem describes_onOneLine_iff (hr : '\r' ∉ text) : Describes (withLineEnds ['\r'] text) d ↔
    ∃ d', Describes text d' ∧ d = d'.onOneLine := by
  have hsame : List.Forall₂ Longer (rows text) (rows (withLineEnds ['\r'] text)) ∧
      List.Forall₂ Longer (rows (withLineEnds ['\r'] text)) (rows text) := by
    rw [rows_withLineEnds hr]
    exact ⟨forall₂_refl_longer _, forall₂_refl_longer _⟩
  have hfeed := lineFeed_not_mem_withLineEnds text
  constructor
  · intro h
    obtain ⟨d', hd', heq⟩ := h.longer hsame.2
    exact ⟨d', hd', by rw [heq, h.onOneLine_eq hfeed]⟩
  · rintro ⟨d', hd', rfl⟩
    obtain ⟨d, hd, heq⟩ := hd'.longer hsame.1
    rwa [← heq, hd.onOneLine_eq hfeed]

theorem NoLoneReturn.of_append (before : List Char) (h : NoLoneReturn (before ++ text)) :
    NoLoneReturn text := fun v w hvw => h (before ++ v) w (by rw [hvw, List.append_assoc])

theorem le_number {l : Line} (h : l ∈ linesFrom n text) : n ≤ l.number := by
  obtain ⟨before, after, -, heq⟩ := exists_of_mem_linesFrom h
  omega

/-- Where every line break is, or ends in, a line feed, every line has a number of its own. -/
theorem pairwise_number (h : NoLoneReturn text) :
    (linesFrom n text).Pairwise fun l l' => l.number < l'.number := by
  fun_induction linesFrom n text with
  | case1 n => exact List.pairwise_singleton _ _
  | case2 n cs ih =>
    refine List.pairwise_cons.mpr ⟨fun l hl => le_number hl, ih ?_⟩
    exact h.of_append ['\r', '\n']
  | case3 n cs hcs _ =>
    -- A return on its own is excluded, so there is no line that keeps the number of the one before.
    have hfeed := h [] cs rfl
    cases cs with
    | nil => cases hfeed
    | cons c cs =>
      cases hfeed
      exact absurd rfl (hcs cs)
  | case4 n cs ih =>
    refine List.pairwise_cons.mpr ⟨fun l hl => le_number hl, ih ?_⟩
    exact h.of_append ['\n']
  | case5 n c cs _ _ _ ih =>
    have hcs := ih (h.of_append [c])
    rw [linesFrom_eq_cons] at hcs ⊢
    exact List.pairwise_cons.mpr (List.pairwise_cons.mp hcs)

end Texts

section Marks

variable {text : List Char} {c d e : Cursor} {ms : List Mark}

/-- From the first place some characters lead to the second. -/
def Moves (c d : Cursor) : Prop := ∃ w, c.rest = w ++ d.rest ∧ d = c.skip w d.rest

theorem Moves.refl (c : Cursor) : Moves c c := ⟨[], rfl, rfl⟩

theorem Moves.trans (h : Moves c d) (h' : Moves d e) : Moves c e := by
  obtain ⟨v, hv, hd⟩ := h
  obtain ⟨w, hw, he⟩ := h'
  refine ⟨v ++ w, by rw [hv, hw, List.append_assoc], ?_⟩
  rw [he, hd, skip_skip]
  rfl

/-- At a place of the text its line is known from the line feeds before it. -/
theorem Moves.line_eq (h : Moves { rest := text } c) :
    c.line = 1 + (text.take c.pos).count '\n' := by
  obtain ⟨w, hrest, hc⟩ := h
  have htext : text = w ++ c.rest := hrest
  have hpos : c.pos = w.length := by rw [hc]; exact Nat.zero_add _
  have hline : c.line = 1 + w.count '\n' := by rw [hc]; rfl
  rw [hline, hpos, htext, List.take_left]

/-- The part leads along the text, and no transition begins in it. -/
def Plain (A : Phrase) : Prop :=
  ∀ c ms d, A c ms d → Moves c d ∧ ∀ k ∈ ms, k.rule ≠ .transition

/-- Parts in order are plain if each of them is. -/
theorem plain_inOrder {As : List Phrase} (h : ∀ A ∈ As, Plain A) : Plain (inOrder As) := by
  induction As with
  | nil =>
    rintro c _ _ ⟨rfl, rfl⟩
    exact ⟨.refl c, by simp⟩
  | cons A As ih =>
    rintro c _ e ⟨xs, d, ys, hA, hAs, rfl⟩
    obtain ⟨hcd, hxs⟩ := h A List.mem_cons_self c xs d hA
    obtain ⟨hde, hys⟩ := ih (fun B hB => h B (List.mem_cons_of_mem A hB)) d ys e hAs
    refine ⟨hcd.trans hde, fun k hk => ?_⟩
    obtain hk | hk := List.mem_append.mp hk
    · exact hxs k hk
    · exact hys k hk

theorem plain_named {r : Rule} {As : List Phrase} (hr : r ≠ .transition)
    (h : ∀ A ∈ As, Plain A) : Plain (named r As) := by
  rintro c _ d ⟨inner, hAs, rfl⟩
  obtain ⟨hcd, hinner⟩ := plain_inOrder h c inner d hAs
  exact ⟨hcd, List.forall_mem_cons.mpr ⟨hr, hinner⟩⟩

theorem plain_optional {As : List Phrase} (h : ∀ A ∈ As, Plain A) : Plain (optional As) := by
  rintro c ms d (hAs | ⟨rfl, rfl, -⟩)
  · exact plain_inOrder h c ms d hAs
  · exact ⟨.refl c, by simp⟩

theorem plain_many {As : List Phrase} (h : ∀ A ∈ As, Plain A) : Plain (many As) := by
  intro c ms d hmany
  induction hmany with
  | stop _ => exact ⟨.refl _, by simp⟩
  | @more c d e xs ys hAs _ ih =>
    obtain ⟨hcd, hxs⟩ := plain_inOrder h c xs d hAs
    refine ⟨hcd.trans ih.1, fun k hk => ?_⟩
    obtain hk | hk := List.mem_append.mp hk
    · exact hxs k hk
    · exact ih.2 k hk

theorem plain_token (p : Char → Bool) : Plain (token p) := by
  rintro c _ d ⟨⟨w, hw⟩, rfl⟩
  exact ⟨⟨w, hw.rest, hw.place⟩, by simp⟩

theorem plain_gap : Plain gap := by
  rintro c _ d ⟨hgap, rfl⟩
  obtain ⟨b, hb⟩ := blanks?_eq_some_iff.mp hgap
  exact ⟨⟨b, hb.rest, hb.place⟩, by simp⟩

theorem plain_word (w : List Char) : Plain (word w) := by
  rintro c _ d ⟨hword, rfl⟩
  obtain ⟨v, -, hv⟩ := word?_eq_some_iff.mp hword
  exact ⟨⟨v, hv⟩, by simp⟩

theorem plain_lineEnd : Plain lineEnd := by
  rintro c _ d ⟨hend, rfl⟩
  obtain ⟨w, -, -, hw⟩ := exists_of_lineEnd? hend
  exact ⟨⟨w, hw⟩, by simp⟩

theorem plain_emptyLines : Plain emptyLines := by
  rintro c _ d ⟨hskip, rfl⟩
  cases hskip
  obtain ⟨w, -, hw⟩ := exists_of_skipEmptyLines c
  exact ⟨⟨w, hw⟩, by simp⟩

theorem plain_notAhead (f : Cursor → Option Cursor) : Plain (notAhead f) := by
  rintro c _ _ ⟨-, rfl, rfl⟩
  exact ⟨.refl c, by simp⟩

theorem plain_sign : Plain sign := by
  rintro c _ d ⟨⟨m, hm⟩, rfl⟩
  exact ⟨⟨[m.char], hm⟩, by simp⟩

theorem plain_nothingLeft : Plain nothingLeft := by
  rintro c _ _ ⟨-, rfl, rfl⟩
  exact ⟨.refl c, by simp⟩

theorem plain_name : Plain name := plain_named (by decide) (by simpa using plain_token _)

theorem plain_symbol : Plain symbol := plain_named (by decide) (by simpa using plain_token _)

theorem plain_count : Plain count := plain_named (by decide) (by simpa using plain_token _)

theorem plain_direction : Plain direction := plain_named (by decide) (by simpa using plain_token _)

theorem plain_marker : Plain marker := plain_named (by decide) (by simpa using plain_sign)

theorem plain_header : Plain header :=
  plain_named (by decide) (by simpa using ⟨plain_word _, plain_gap, plain_count⟩)

theorem plain_state : Plain state := by
  have hmark : Plain (optional [gap, marker]) :=
    plain_optional (by simpa using ⟨plain_gap, plain_marker⟩)
  exact plain_named (by decide) (by simpa using ⟨plain_notAhead _, plain_name, hmark⟩)

theorem plain_alphabet : Plain Phrase.alphabet := by
  have hcells : Plain (many [gap, symbol]) := plain_many (by simpa using ⟨plain_gap, plain_symbol⟩)
  exact plain_named (by decide) (by simpa using ⟨plain_word _, plain_gap, plain_count, hcells⟩)

theorem plain_states : Plain Phrase.states :=
  plain_many (by simpa using ⟨plain_emptyLines, plain_state, plain_lineEnd⟩)

theorem plain_endOfText : Plain endOfText :=
  plain_named (by decide) (by simpa using plain_nothingLeft)

theorem plain_space : Plain space := by
  rintro c _ d ⟨hspace, rfl⟩
  cases hspace
  exact ⟨⟨c.rest.takeWhile fun x => !isVisible x, List.takeWhile_append_dropWhile.symm, rfl⟩,
    by simp⟩

def transitionMarks (ms : List Mark) : List Mark := ms.filter (·.rule = .transition)

theorem transitionMarks_append (xs ys : List Mark) :
    transitionMarks (xs ++ ys) = transitionMarks xs ++ transitionMarks ys := List.filter_append ..

theorem Plain.transitionMarks_eq_nil {A : Phrase} (hA : Plain A) (h : A c ms d) :
    transitionMarks ms = [] :=
  List.filter_eq_nil_iff.mpr fun k hk => by simpa using (hA c ms d h).2 k hk

/-- The transition has the number of the line on which it begins, line feeds counted. -/
def OnLine (text : List Char) (line : Nat) (k : Mark) : Prop :=
  line = 1 + (text.take k.pos).count '\n'

/-- A row of a transition has one mark, at the line of which the transition tells. -/
theorem onLine_of_transitionRow {t : DraftTransition} (hc : Moves { rest := text } c)
    (ht : TransitionRow c t d) (hms : inOrder [lineEnd, emptyLines, transition] c ms e) :
    Moves { rest := text } e ∧ ∃ k, transitionMarks ms = [k] ∧ OnLine text t.line k := by
  obtain ⟨f, hf, htext⟩ := ht
  obtain ⟨f', hf', hrest⟩ := inOrder_take_cons.mp hms
  obtain rfl : f = f' := Option.some.inj (hf.symm.trans hf')
  obtain ⟨inner, hcolumns, rfl⟩ := inOrder_singleton.mp (inOrder_goTo_cons.mp hrest)
  have hplain : Plain (inOrder columns) := plain_inOrder (by
    simpa [columns] using ⟨plain_name, plain_gap, plain_symbol, plain_gap, plain_name, plain_gap,
      plain_symbol, plain_gap, plain_direction⟩)
  have hf := (plain_lineEnd c [] f ⟨hf, rfl⟩).1
  have hplace := hc.trans (hf.trans (plain_emptyLines f [] _ ⟨rfl, rfl⟩).1)
  refine ⟨hplace.trans (hplain _ inner e hcolumns).1, ⟨.transition, f.skipEmptyLines.pos⟩, ?_, ?_⟩
  · have hinner := hplain.transitionMarks_eq_nil hcolumns
    simpa [transitionMarks] using hinner
  · exact htext.1.symm.trans hplace.line_eq

/-- Every transition that is read has its mark, on its own line. -/
theorem onLine_of_transitions {ts : List DraftTransition} (hc : Moves { rest := text } c)
    (hts : Repeats TransitionRow c ts d) (hms : Phrase.transitions c ms e) :
    List.Forall₂ (OnLine text) (ts.map (·.line)) (transitionMarks ms) := by
  -- The induction is on the transitions that are read.
  induction hts generalizing ms with
  | stop hno =>
    cases hms with
    | stop _ => exact .nil
    | @more _ f _ xs ys hrow _ =>
      obtain ⟨t, ht⟩ :=
        (Grammar.follows_transitionRow.exists_iff Grammar.takes_transitionRow).mpr ⟨xs, hrow⟩
      exact absurd ht (hno t f)
  | more ht _ ih =>
    cases hms with
    | stop hno =>
      obtain ⟨xs, hxs⟩ :=
        (Grammar.follows_transitionRow.exists_iff Grammar.takes_transitionRow).mp ⟨_, ht⟩
      exact absurd hxs (hno xs _)
    | @more _ f _ xs ys hrow hrows =>
      obtain rfl := Grammar.follows_transitionRow.place_eq Grammar.takes_transitionRow ht hrow
      obtain ⟨hf, k, hk, hline⟩ := onLine_of_transitionRow hc ht hrow
      rw [transitionMarks_append, hk, List.map_cons]
      exact .cons hline (ih hf hrows)

/-- Reading the numbers of a transition does not touch its line. -/
theorem map_line_of_completes {ts : List DraftTransition} {ts' : List TransitionLine}
    (h : List.Forall₂ Completes ts ts') : ts.map (·.line) = ts'.map (·.line) := by
  induction h with
  | nil => rfl
  | cons ht _ ih => rw [List.map_cons, List.map_cons, ih, ht.eq]

def aboveTransitions : List Phrase :=
  [emptyLines, header, lineEnd, Phrase.states, emptyLines, Phrase.alphabet]

theorem plain_aboveTransitions : Plain (inOrder aboveTransitions) := plain_inOrder (by
  simpa [aboveTransitions] using ⟨plain_emptyLines, plain_header, plain_lineEnd, plain_states,
    plain_emptyLines, plain_alphabet⟩)

/-- No transition begins above the transitions of a program or below them. -/
theorem exists_of_derives (h : Derives text ms) :
    ∃ xs d ys e, inOrder aboveTransitions { rest := text } xs d ∧ Phrase.transitions d ys e ∧
      transitionMarks ms = transitionMarks ys := by
  obtain ⟨e, inner, hinner, rfl⟩ := h
  have hparts : inOrder (aboveTransitions ++ [Phrase.transitions, space, endOfText])
      { rest := text } inner e := hinner
  obtain ⟨xs, d, _, habove, ⟨ys, f, zs, htransitions, hend, rfl⟩, rfl⟩ := inOrder_append.mp hparts
  have hplain : Plain (inOrder [space, endOfText]) :=
    plain_inOrder (by simpa using ⟨plain_space, plain_endOfText⟩)
  have hprogram : transitionMarks [⟨.program, 0⟩] = [] := rfl
  refine ⟨xs, d, ys, f, habove, htransitions, ?_⟩
  rw [← List.singleton_append, transitionMarks_append, transitionMarks_append,
    transitionMarks_append, plain_aboveTransitions.transitionMarks_eq_nil habove,
    hplain.transitionMarks_eq_nil hend]
  simp [hprogram]

/-- Down to the transitions reading and deriving lead to the same place. -/
theorem ProgramText.exists_repeats {x : Draft} (hx : ProgramText c x d)
    (h : inOrder aboveTransitions c ms e) : ∃ f, Repeats TransitionRow e x.transitions f := by
  obtain ⟨c1, c2, c3, c4, c5, hheader, hend, hstates, halphabet, htransitions, -⟩ := hx
  obtain ⟨_, d1, _, hheader', h1, -⟩ := inOrder_goTo_cons.mp h
  obtain rfl := Grammar.follows_header.place_eq Grammar.takes_header hheader hheader'
  obtain ⟨d2, hend', h2⟩ := inOrder_take_cons.mp h1
  obtain rfl : c2 = d2 := Option.some.inj (hend.symm.trans hend')
  obtain ⟨_, d3, _, hstates', h3, -⟩ := h2
  have hread := Grammar.takes_stateRow.many fun h => h.length_rest_lt
  obtain rfl := Grammar.follows_states.place_eq hread hstates hstates'
  have halphabet' := inOrder_singleton.mp (inOrder_goTo_cons.mp h3)
  obtain rfl := Grammar.follows_alphabet.place_eq Grammar.takes_alphabet halphabet halphabet'
  exact ⟨c5, htransitions⟩

/-- Each transition tells the line at which its mark stands. -/
theorem onLine_of_derives {x : Draft} (hx : ProgramText { rest := text } x d)
    (hms : Derives text ms) :
    List.Forall₂ (OnLine text) (x.transitions.map (·.line)) (transitionMarks ms) := by
  obtain ⟨xs, f, ys, g, habove, htransitions, heq⟩ := exists_of_derives hms
  obtain ⟨h, hrepeats⟩ := hx.exists_repeats habove
  rw [heq]
  exact onLine_of_transitions (plain_aboveTransitions _ xs f habove).1 hrepeats htransitions

end Marks

/-- Each transition has the number of the line on which it begins, where only line feeds end lines;
if no carriage return stands on its own, these numbers grow. A text without carriage returns says
the same, on the same lines, with both characters at the end of each line, and the same, on one
line, with carriage returns instead of line feeds. -/
theorem line_numbers_and_line_ends (text : String) :
    (∀ d, parse text = .ok d →
      (∃ ms, Derives text.toList ms ∧
        List.Forall₂ (OnLine text.toList) (d.transitions.map (·.line)) (transitionMarks ms)) ∧
      (NoLoneReturn text.toList → (d.transitions.map (·.line)).Pairwise (· < ·))) ∧
    ('\r' ∉ text.toList →
      (∀ d, parse (String.ofList (withLineEnds ['\r', '\n'] text.toList)) = .ok d ↔
        parse text = .ok d) ∧
      ∀ d, parse (String.ofList (withLineEnds ['\r'] text.toList)) = .ok d ↔
        ∃ d', parse text = .ok d' ∧ d = d'.onOneLine) := by
  refine ⟨fun d hd => ⟨?_, fun hreturn => ?_⟩, fun hr => ⟨fun d => ?_, fun d => ?_⟩⟩
  · obtain ⟨x, f, hx, hfills⟩ := ofChars_eq_ok_iff.mp hd
    -- A text that is read is derived in a single way, and its marks tell where the transitions
    -- begin.
    obtain ⟨ms, hms⟩ := exists_draft_iff.mp ⟨x, draft_eq_ok_iff.mpr ⟨f, hx⟩⟩
    have hlines := onLine_of_derives hx hms
    rw [map_line_of_completes hfills.transitions] at hlines
    exact ⟨ms, hms, hlines⟩
  -- The numbers of transitions are some of the numbers of lines, in order.
  · have hsub := (ofChars_eq_ok_iff_describes.mp hd).sublist_numbers
    exact (List.pairwise_map.mpr (pairwise_number hreturn)).sublist hsub
  · unfold parse
    rw [String.toList_ofList, ofChars_eq_ok_iff_describes, ofChars_eq_ok_iff_describes,
      describes_withLineEnds_iff hr]
  · unfold parse
    rw [String.toList_ofList, ofChars_eq_ok_iff_describes, describes_onOneLine_iff hr]
    simp only [ofChars_eq_ok_iff_describes]

/-- Two transitions below an empty line. -/
theorem line_numbers_and_line_ends_of_two_transitions :
    [6, 7].Pairwise (· < ·) ∧
      parse "states 2\r\na +\r\nb -\r\nalphabet 0\r\n\r\na x b x R\r\nb x a x L" =
        .ok ⟨2, [⟨"a", some .accept⟩, ⟨"b", some .reject⟩], 0, [],
          [⟨"a", "x", "b", "x", .right, 6⟩, ⟨"b", "x", "a", "x", .left, 7⟩]⟩ ∧
      parse "states 2\ra +\rb -\ralphabet 0\r\ra x b x R\rb x a x L" =
        .ok ⟨2, [⟨"a", some .accept⟩, ⟨"b", some .reject⟩], 0, [],
          [⟨"a", "x", "b", "x", .right, 1⟩, ⟨"b", "x", "a", "x", .left, 1⟩]⟩ := by
  have hparse : parse "states 2\na +\nb -\nalphabet 0\n\na x b x R\nb x a x L" =
      .ok ⟨2, [⟨"a", some .accept⟩, ⟨"b", some .reject⟩], 0, [],
        [⟨"a", "x", "b", "x", .right, 6⟩, ⟨"b", "x", "a", "x", .left, 7⟩]⟩ := by decide +kernel
  have hnone : '\r' ∉ "states 2\na +\nb -\nalphabet 0\n\na x b x R\nb x a x L".toList := by decide
  have hreturn : NoLoneReturn "states 2\na +\nb -\nalphabet 0\n\na x b x R\nb x a x L".toList :=
    fun before after h => absurd (by rw [h]; simp) hnone
  obtain ⟨hlines, hends⟩ := line_numbers_and_line_ends
    "states 2\na +\nb -\nalphabet 0\n\na x b x R\nb x a x L"
  obtain ⟨hfeed, hcarriage⟩ := hends hnone
  exact ⟨(hlines _ hparse).2 hreturn, (hfeed _).mpr hparse, (hcarriage _).mpr ⟨_, hparse, rfl⟩⟩

end SingleTape.Description
