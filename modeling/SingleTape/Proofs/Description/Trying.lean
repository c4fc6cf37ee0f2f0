import SingleTape.Description.ParseError
import SingleTape.Proofs.Description.Expecting

/-!
# Where rules are tried

A text that is no description is reported with a place and the rules that were tried there in vain.
Up to that place the text is the beginning of a description, for every one of these rules of one in
which the rule begins just there. For this, whatever the matcher tries, it tries where it is
expected, also on ways that it gives up later.
-/

namespace SingleTape.Description

open Cursor Phrase

/-- What stands before the position is the beginning of a description in which the rule begins
there; for the end of the text, it is a description itself. -/
structure CanBegin (text : List Char) (r : Rule) (pos : Nat) : Prop where
  le : pos ≤ text.length
  exists_derives : ∃ text' ms, Derives text' ms ∧ text.take pos <+: text' ∧ ⟨r, pos⟩ ∈ ms ∧
    (r = .endOfText → text' = text.take pos)

/-- A rule that is expected first can begin at the place, if the rest can be completed. -/
theorem Expects.canBegin {text : List Char} {Ks : List Phrase} {r : Rule} {c : Cursor}
    (h : Expects text Ks c) (hK : Completable Ks) (hr : StartsWith Ks r) (hne : r ≠ .endOfText) :
    CanBegin text r c.pos := by
  obtain ⟨done, rest, rfl, rfl, hall⟩ := h
  obtain ⟨rest', hrest'⟩ := hK
  obtain ⟨ms, e, hms⟩ := hrest' done
  obtain ⟨all, hder, hsub⟩ := hall rest' ms e hms
  refine ⟨by simp, done ++ rest', all, hder, ?_, hsub (hr (after done rest') ms e hms),
    fun h => absurd h hne⟩
  rw [pos_after, List.take_left]
  exact List.prefix_append done rest'

/-- All rules on record were tried where they can begin, and a place is on record for a rule. -/
structure Attempts.Sound (text : List Char) (a : Attempts) : Prop where
  canBegin : ∀ r ∈ a.failed, CanBegin text r a.far
  kept : 0 < a.far → a.failed ≠ []

/-- A rule that fails is kept, or another one at a place further on. -/
theorem Attempts.fail_eq_self_or (a : Attempts) (r : Rule) (pos before : Nat) :
    a.fail r pos before = a ∧ pos < a.far ∨ (a.fail r pos before).failed ≠ [] := by
  unfold Attempts.fail
  split
  case isTrue hcount =>
    right
    intro hnil
    simp [Attempts.countAt, hnil] at hcount
  case isFalse =>
    split
    case isTrue => simp
    case isFalse hfar =>
      split
      case isTrue => simp
      case isFalse hlt => exact .inl ⟨rfl, by omega⟩

namespace Attempts.Sound

variable {text : List Char} {a : Attempts} {r : Rule} {pos before : Nat}

/-- After a failure there is a rule on record. -/
theorem failed_ne_nil (h : Sound text (a.fail r pos before)) :
    (a.fail r pos before).failed ≠ [] := by
  obtain ⟨heq, hlt⟩ | hne := a.fail_eq_self_or r pos before
  · exact h.kept (by rw [heq]; omega)
  · exact hne

/-- A record stays sound with a rule that can begin where it failed. -/
theorem fail (h : Sound text a) (hr : CanBegin text r pos) :
    Sound text (a.fail r pos before) := by
  refine ⟨?_, fun _ => ?_⟩
  swap
  · obtain ⟨heq, hlt⟩ | hne := a.fail_eq_self_or r pos before
    · rw [heq]
      exact h.kept (by omega)
    · exact hne
  -- The rule is dropped, added to those at the same place, or it begins a new record further on.
  unfold Attempts.fail
  split
  case isTrue => exact h.canBegin
  case isFalse =>
    split
    case isTrue hfar =>
      intro r' hr'
      obtain hr' | hr' := List.mem_append.mp hr'
      · exact h.canBegin r' (List.mem_of_mem_take hr')
      · rw [List.mem_singleton.mp hr']
        exact hfar ▸ hr
    case isFalse =>
      split
      case isTrue =>
        intro r' hr'
        rw [List.mem_singleton.mp hr']
        exact hr
      case isFalse => exact h.canBegin

end Attempts.Sound

/-- Tried at the place, the matcher keeps the record sound, and what it takes off has the
property. -/
def Tries {α : Type} (text : List Char) (m : Matcher α) (c : Cursor) (Post : α → Cursor → Prop) :
    Prop :=
  ∀ a, Attempts.Sound text a → (m c a).2.Sound text ∧ ∀ x d, (m c a).1 = some (x, d) → Post x d

namespace Tries

open Matcher

variable {α β : Type} {text : List Char} {m : Matcher α} {c : Cursor} {P Q : α → Cursor → Prop}

theorem mono (h : Tries text m c P) (hPQ : ∀ x d, P x d → Q x d) : Tries text m c Q :=
  fun a ha => ⟨(h a ha).1, fun x d hx => hPQ x d ((h a ha).2 x d hx)⟩

/-- A matcher without named rules inside leaves the record as it is. -/
theorem of_takes {R : Cursor → α → Cursor → Prop} (h : Takes m R)
    (hsilent : ∀ a, (m c a).2 = a) : Tries text m c (R c) :=
  fun a ha => ⟨(hsilent a).symm ▸ ha, fun x d hx => (h c a x d).mp hx⟩

theorem pure {x : α} (h : P x c) : Tries text (Pure.pure x) c P := by
  refine fun a ha => ⟨ha, fun y d hy => ?_⟩
  cases hy
  exact h

/-- A matcher that goes on where another one ended. -/
theorem bind {f : α → Matcher β} {R : β → Cursor → Prop} (hm : Tries text m c P)
    (hf : ∀ x d, P x d → Tries text (f x) d R) : Tries text (m >>= f) c R := by
  intro a ha
  obtain ⟨ha', hP⟩ := hm a ha
  cases h : m c a with
  | mk o a' =>
    rw [h] at ha' hP
    cases o with
    | none =>
      rw [bind_of_none h]
      exact ⟨ha', fun y e hy => by cases hy⟩
    | some y =>
      obtain ⟨x, d⟩ := y
      rw [bind_of_some h]
      exact hf x d (hP x d rfl) a' ha'

theorem rule {r : Rule} (hr : CanBegin text r c.pos) (hm : Tries text m c P) :
    Tries text (rule r m) c P := by
  intro a ha
  obtain ⟨ha', hP⟩ := hm a ha
  rw [fst_rule]
  refine ⟨?_, hP⟩
  unfold Matcher.rule
  split
  case h_1 x after h =>
    rw [h] at ha'
    exact ha'
  case h_2 after h =>
    rw [h] at ha'
    exact ha'.fail hr

theorem optional {R : Option α → Cursor → Prop} (hm : Tries text m c fun x d => R (some x) d)
    (hnone : R none c) : Tries text (optional m) c R := by
  intro a ha
  obtain ⟨ha', hR⟩ := hm a ha
  cases h : m c a with
  | mk o a' =>
    rw [h] at ha' hR
    cases o with
    | none =>
      rw [optional_of_none h]
      refine ⟨ha', fun y e hy => ?_⟩
      cases hy
      exact hnone
    | some y =>
      obtain ⟨x, d⟩ := y
      rw [optional_of_some h]
      refine ⟨ha', fun y e hy => ?_⟩
      cases hy
      exact hR x d rfl

/-- What holds wherever a round of a repetition begins holds where the repetition ends. -/
theorem many {I : Cursor → Prop} (hI : I c) (hm : ∀ d, I d → Tries text m d fun _ e => I e) :
    Tries text (many m) c fun _ d => I d := by
  -- The induction is on the number of tries, with the invariant at each place reached.
  have hup (n : Nat) (xs : Array α) (d : Cursor) (hd : I d) :
      Tries text (manyUpTo m n xs) d fun _ e => I e := by
    induction n generalizing xs d with
    | zero => exact pure hd
    | succ n ih =>
      intro a ha
      obtain ⟨ha', hI'⟩ := hm d hd a ha
      cases h : m d a with
      | mk o a' =>
        rw [h] at ha' hI'
        cases o with
        | none =>
          rw [manyUpTo_of_none h]
          refine ⟨ha', fun y e hy => ?_⟩
          cases hy
          exact hd
        | some y =>
          obtain ⟨x, e⟩ := y
          rw [manyUpTo_of_some h]
          exact ih (xs.push x) e (hI' x e rfl) a' ha'
  exact (hup (c.rest.length + 1) #[] c hI).bind fun xs d hd => pure hd

end Tries

section Rows

variable {text : List Char} {Ks Ks' : List Phrase} {c d : Cursor}

theorem Expects.emptyLines (h : Expects text (emptyLines :: Ks) c)
    (hK : Begins Ks (Heads isVisible)) : Expects text Ks c.skipEmptyLines := by
  obtain ⟨w, hw, hrest, hd⟩ := exists_of_skipEmptyLines c
  exact Expects.reads h hK (reads_emptyLines hw) hrest hd

/-- At the end of a line, whatever may come next may come on the next line that is not empty. -/
theorem Expects.nextRow (h : Expects text (lineEnd :: Ks) c)
    (hK : Continues (Phrase.emptyLines :: Ks') Ks) (hQ : Begins Ks' (Heads isVisible))
    (hd : c.lineEnd? = some d) : Expects text Ks' d.skipEmptyLines := by
  obtain ⟨w, hne, hw, hrest, hplace⟩ := exists_of_nextRow hd
  have h' : Expects text ([lineEnd, Phrase.emptyLines] ++ Ks') c :=
    h.mono (hK.append_left [lineEnd])
  exact h'.reads hQ (reads_lineEnd hne hw) hrest hplace

/-- Where no blanks are taken off there are none. -/
theorem stops_of_blanks?_eq_none (h : c.blanks? = none) : Stops isBlank c.rest := by
  intro x hx
  cases hb : isBlank x with
  | false => rfl
  | true =>
    have hne : c.rest.takeWhile isBlank ≠ [] := by
      cases hr : c.rest with
      | nil => simp [hr] at hx
      | cons y r =>
        rw [hr] at hx
        cases hx
        simp [hb]
    rw [blanks?_eq_some_iff.mpr ⟨_, piece_span hne⟩] at h
    cases h

/-- Behind a bare name and its line end the next row is expected. -/
theorem Expects.nextRow_of_bare (h : Expects text (notAhead blanks? :: lineEnd :: Ks) c)
    (hc : c.blanks? = none) (hK : Continues (Phrase.emptyLines :: Ks') Ks)
    (hQ : Begins Ks' (Heads isVisible)) (hd : c.lineEnd? = some d) :
    Expects text Ks' d.skipEmptyLines := by
  obtain ⟨w, hne, hw, hrest, hplace⟩ := exists_of_nextRow hd
  have hbare : Stops isBlank w := by
    intro x hx
    refine stops_of_blanks?_eq_none hc x ?_
    rw [hrest, List.head?_append_of_ne_nil w hne]
    exact hx
  have h' : Expects text ([notAhead blanks?, lineEnd, Phrase.emptyLines] ++ Ks') c :=
    h.mono (hK.append_left [notAhead blanks?, lineEnd])
  exact h'.reads hQ (reads_bareLineEnd hne hw hbare) hrest hplace

end Rows

section Parts

variable {text : List Char} {Ks : List Phrase} {c : Cursor} {r : Rule}

theorem tries_word {w : List Char} (h : Expects text (word w :: Ks) c) :
    Tries text (Grammar.word w) c fun _ d => Expects text Ks d := by
  refine (Tries.of_takes (Grammar.takes_word w) fun _ => rfl).mono fun _ d hd => ?_
  obtain ⟨v, hv, hrest, hplace⟩ := word?_eq_some_iff.mp hd
  exact Expects.reads h (fun _ _ _ _ => trivial) (reads_word hv) hrest hplace

theorem tries_gap (h : Expects text (gap :: Ks) c) (hK : Begins Ks (Heads isVisible)) :
    Tries text Grammar.gap c fun _ d => Expects text Ks d := by
  refine (Tries.of_takes Grammar.takes_gap fun _ => rfl).mono fun _ d hd => ?_
  obtain ⟨b, hb⟩ := hd
  exact Expects.reads h hK.stops_isBlank (reads_gap hb.ne_nil hb.all) hb.rest hb.place

theorem tries_token (p : Char → Bool) :
    Tries text (Matcher.token p) c fun _ d => ∃ w, Piece p c w d :=
  (Tries.of_takes (.token p) fun _ => rfl).mono fun t _ ht => ⟨t.chars, ht.1⟩

theorem tries_text (p : Char → Bool) :
    Tries text (do return (← Matcher.token p).text : Matcher String) c fun _ d =>
      ∃ w, Piece p c w d :=
  (tries_token p).bind fun _ _ hw => .pure hw

/-- A rule that is one piece is tried, and taken off, where it is expected. -/
theorem Expects.tries_piece {α : Type} {m : Matcher α} {p : Char → Bool}
    (h : Expects text (named r [token p] :: Ks) c) (hs : Completable (named r [token p] :: Ks))
    (hr : r ≠ .endOfText) (hp : ∀ c, p c = true → isVisible c = true)
    (hK : Begins Ks (Stops isVisible)) (hm : Tries text m c fun _ d => ∃ w, Piece p c w d) :
    Tries text (Matcher.rule r m) c fun _ d => Expects text Ks d := by
  refine Tries.rule (h.canBegin hs startsWith_named hr) (hm.mono fun _ d hd => ?_)
  obtain ⟨w, hw⟩ := hd
  exact Expects.reads h (hK.stops_of hp) (reads_token hw.ne_nil hw.all).named hw.rest hw.place

/-- A name goes on record where it can begin, and what follows it is expected behind it. -/
theorem tries_name (h : Expects text (name :: Ks) c) (hs : Completable (name :: Ks))
    (hK : Begins Ks (Stops isVisible)) :
    Tries text Grammar.name c fun _ d => Expects text Ks d :=
  h.tries_piece hs (by decide) (fun _ => isVisible_of_isNameChar) hK (tries_text _)

theorem tries_symbol (h : Expects text (symbol :: Ks) c) (hs : Completable (symbol :: Ks))
    (hK : Begins Ks (Stops isVisible)) :
    Tries text Grammar.symbol c fun _ d => Expects text Ks d :=
  h.tries_piece hs (by decide) (fun _ => id) hK (tries_text _)

theorem tries_count (h : Expects text (count :: Ks) c) (hs : Completable (count :: Ks))
    (hK : Begins Ks (Stops isVisible)) :
    Tries text Grammar.count c fun _ d => Expects text Ks d :=
  h.tries_piece hs (by decide) (fun _ => isVisible_of_isDigit) hK (tries_token _)

theorem tries_direction (h : Expects text (direction :: belowAlphabet) c) :
    Tries text Grammar.direction c fun _ d => Expects text belowAlphabet d :=
  h.tries_piece completable_direction (by decide) (fun _ => id)
    (begins_belowAlphabet.mono fun _ => LineOver.stops) (tries_token _)

theorem tries_marker (h : Expects text (marker :: lineEnd :: belowHeader) c) :
    Tries text Grammar.marker c fun _ d => Expects text (lineEnd :: belowHeader) d := by
  refine Tries.rule (h.canBegin completable_marker startsWith_named (by decide))
    ((Tries.of_takes Grammar.takes_marker.of_rule fun a => ?_).mono fun m d hd => ?_)
  · split <;> rfl
  · exact Expects.reads h (fun _ _ _ _ => trivial) (reads_sign m).named hd.1 hd.2

end Parts

section Lines

variable {text : List Char} {c d : Cursor}

theorem tries_header (h : Expects text (header :: lineEnd :: belowHeader) c) :
    Tries text Grammar.header c fun _ d => Expects text (lineEnd :: belowHeader) d := by
  refine Tries.rule (h.canBegin completable_header startsWith_named (by decide)) ?_
  refine (tries_word (h.mono continues_header)).bind fun _ d1 h1 => ?_
  refine (tries_gap h1 begins_count).bind fun _ d2 h2 => ?_
  exact tries_count h2 completable_headerCount (begins_lineEnd.mono fun _ => LineOver.stops)

/-- On the next line that is not empty, a state or the alphabet is expected. -/
structure AtStates (text : List Char) (c : Cursor) : Prop where
  state : Expects text (state :: lineEnd :: belowHeader) c.skipEmptyLines
  alphabet : Expects text (Phrase.alphabet :: belowAlphabet) c.skipEmptyLines

theorem continues_stateRow :
    Continues (emptyLines :: state :: lineEnd :: belowHeader) belowHeader :=
  continues_many [emptyLines, Phrase.state, lineEnd]

theorem AtStates.of_lineEnd (h : Expects text (lineEnd :: belowHeader) c)
    (hd : c.lineEnd? = some d) : AtStates text d where
  state := h.nextRow continues_stateRow begins_state hd
  alphabet := h.nextRow continues_below begins_alphabet hd

theorem AtStates.of_bareLineEnd (h : Expects text (notAhead blanks? :: lineEnd :: belowHeader) c)
    (hc : c.blanks? = none) (hd : c.lineEnd? = some d) : AtStates text d where
  state := h.nextRow_of_bare hc continues_stateRow begins_state hd
  alphabet := h.nextRow_of_bare hc continues_below begins_alphabet hd

/-- After a name that would begin an alphabet line if blanks followed, there are none, and the line
has to end without any; after any other name a mark may come. -/
theorem tries_state (h : Expects text (state :: lineEnd :: belowHeader) c) :
    Tries text Grammar.state c fun _ d => ∀ f, d.lineEnd? = some f → AtStates text f := by
  have hname := h.mono continues_state
  refine Tries.rule (h.canBegin completable_state startsWith_named (by decide)) ?_
  refine (Tries.of_takes (.notAhead _) fun _ => rfl).bind fun _ d1 h1 => ?_
  obtain ⟨hno, rfl⟩ := h1
  refine (Tries.rule (hname.canBegin completable_stateName startsWith_named.notAhead (by decide))
    (tries_text isNameChar)).bind fun s e he => ?_
  obtain ⟨v, hpiece⟩ := he
  have hread := reads_stateName hpiece.ne_nil hpiece.all
  -- A name that spells the keyword of the alphabet line cannot have a mark, since the look ahead
  -- has found no blanks behind it.
  by_cases hv : Spells v Grammar.alphabetWord
  · have hblanks : e.blanks? = none := by
      have hword := word?_of_piece hpiece hv
      rwa [Grammar.alphabetStart?, hword] at hno
    have hguarded : Expects text ([notAhead Grammar.alphabetStart?, name] ++
        notAhead blanks? :: optional [gap, marker] :: lineEnd :: belowHeader) c :=
      hname.mono (continues_notAhead.append_left [notAhead Grammar.alphabetStart?, name])
    have hmark := hguarded.reads (begins_bare.mono fun _ ht => ⟨ht.1, fun _ => ht.2⟩) hread
      hpiece.rest hpiece.place
    have hend : Expects text (notAhead blanks? :: lineEnd :: belowHeader) e :=
      hmark.mono (excludes_mark.continues_optional.append_left [notAhead blanks?])
    refine (Tries.optional ?_ ?_).bind fun m d hd => .pure hd
    · refine (Tries.of_takes Grammar.takes_gap fun _ => rfl).bind fun _ g hg => ?_
      rw [blanks?_eq_some_iff.mpr hg] at hblanks
      cases hblanks
    · exact fun f => AtStates.of_bareLineEnd hend hblanks
  · have hmark : Expects text (optional [gap, marker] :: lineEnd :: belowHeader) e :=
      Expects.reads hname (begins_mark.mono fun _ ht => ⟨ht, fun hs => absurd hs hv⟩) hread
        hpiece.rest hpiece.place
    refine (Tries.optional ?_ ?_).bind fun m d hd => .pure hd
    · refine (tries_gap (hmark.mono (continues_optional [gap, marker])) begins_marker).bind
        fun _ g hg => (tries_marker hg).mono fun _ d hd f => AtStates.of_lineEnd hd
    · exact fun f => AtStates.of_lineEnd (hmark.mono excludes_mark.continues_optional)

theorem tries_alphabet (h : Expects text (Phrase.alphabet :: belowAlphabet) c) :
    Tries text Grammar.alphabet c fun _ d => Expects text belowAlphabet d := by
  refine Tries.rule (h.canBegin completable_alphabet startsWith_named (by decide)) ?_
  refine (tries_word (h.mono continues_alphabet)).bind fun _ d1 h1 => ?_
  refine (tries_gap h1 begins_count).bind fun _ d2 h2 => ?_
  refine (tries_count h2 completable_alphabetCount begins_cells).bind fun _ d3 h3 => ?_
  refine (Tries.many h3 fun d4 h4 => ?_).bind fun _ d5 h5 => .pure ?_
  · refine (tries_gap (h4.mono (continues_many [gap, symbol])) begins_symbol).bind fun _ d5 h5 => ?_
    exact tries_symbol h5 completable_symbol begins_cells
  · exact h5.mono excludes_cell.continues_many

theorem tries_transition (h : Expects text (transition :: belowAlphabet) c) :
    Tries text Grammar.transition c fun _ d => Expects text belowAlphabet d := by
  have hs4 := completable_direction.symbol begins_direction
  have hs3 := hs4.name begins_symbol
  have hs2 := hs3.symbol begins_name
  have hs1 := hs2.name begins_symbol
  refine Tries.rule (h.canBegin completable_transition startsWith_named (by decide)) ?_
  refine (Tries.of_takes .line fun _ => rfl).bind fun _ c0 h0 => ?_
  obtain ⟨-, rfl⟩ := h0
  refine (tries_name (h.mono continues_transition) hs1 begins_gap).bind fun _ d1 h1 => ?_
  refine (tries_gap h1 begins_symbol).bind fun _ d2 h2 => ?_
  refine (tries_symbol h2 hs2 begins_gap).bind fun _ d3 h3 => ?_
  refine (tries_gap h3 begins_name).bind fun _ d4 h4 => ?_
  refine (tries_name h4 hs3 begins_gap).bind fun _ d5 h5 => ?_
  refine (tries_gap h5 begins_symbol).bind fun _ d6 h6 => ?_
  refine (tries_symbol h6 hs4 begins_gap).bind fun _ d7 h7 => ?_
  refine (tries_gap h7 begins_direction).bind fun _ d8 h8 => ?_
  exact (tries_direction h8).bind fun _ _ h9 => .pure h9

theorem tries_stateRow (h : AtStates text c) :
    Tries text (do Grammar.emptyLines; let s ← Grammar.state; Grammar.lineEnd; return s) c
      fun _ d => AtStates text d := by
  refine (Tries.of_takes Grammar.takes_emptyLines fun _ => rfl).bind fun _ d hd => ?_
  subst hd
  refine (tries_state h.state).bind fun s e he => ?_
  exact (Tries.of_takes Grammar.takes_lineEnd fun _ => rfl).bind fun _ f hf => .pure (he f hf)

theorem tries_transitionRow (h : Expects text belowAlphabet c) :
    Tries text (do Grammar.lineEnd; Grammar.emptyLines; Grammar.transition) c
      fun _ d => Expects text belowAlphabet d := by
  have hrow : Expects text (lineEnd :: emptyLines :: transition :: belowAlphabet) c :=
    h.mono (continues_many [lineEnd, emptyLines, transition])
  refine (Tries.of_takes Grammar.takes_lineEnd fun _ => rfl).bind fun _ d hd => ?_
  refine (Tries.of_takes Grammar.takes_emptyLines fun _ => rfl).bind fun _ e he => ?_
  subst he
  exact tries_transition (hrow.nextRow (fun c ms e h => ⟨ms, h, List.Subset.refl _⟩)
    begins_transition hd)

/-- Where only space has come after a description, it may end: what stands there is one already. -/
theorem canBegin_endOfText (h : Expects text [space, endOfText] c) :
    CanBegin text .endOfText c.skipSpace.pos := by
  obtain ⟨done, rest, rfl, rfl, hall⟩ := h
  let w := rest.takeWhile fun x => !isVisible x
  have hpos : (after done rest).skipSpace.pos = (done ++ w).length := by
    rw [List.length_append]
    rfl
  have hw : (after done w).skipSpace = after (done ++ w) [] :=
    skipSpace_after fun x hx => by simpa using of_mem_takeWhile hx
  have htext : done ++ rest = done ++ w ++ rest.dropWhile fun x => !isVisible x := by
    rw [List.append_assoc, List.takeWhile_append_dropWhile]
  -- What was read so far is completed by nothing but the space that follows.
  have hend : inOrder [space, endOfText] (after done w) [⟨.endOfText, (done ++ w).length⟩]
      (after (done ++ w) []) := by
    refine inOrder_goTo_cons.mpr (inOrder_singleton.mpr ?_)
    rw [hw]
    exact ⟨[], inOrder_singleton.mpr ⟨rfl, rfl, rfl⟩, rfl⟩
  obtain ⟨all, hder, hsub⟩ := hall w _ _ hend
  rw [hpos, htext]
  refine ⟨?_, done ++ w, all, hder, ?_, hsub (by simp), fun _ => List.take_left.symm⟩
  · simp
  · exact ⟨[], by rw [List.append_nil, List.take_left]⟩

/-- All that a text puts on record can begin where it failed. -/
theorem tries_program (text : List Char) :
    Tries text Grammar.program { rest := text } fun _ _ => True := by
  have hprogram : Expects text [program] { rest := text } :=
    ⟨[], text, rfl, rfl, fun _ ms e h =>
      ⟨ms, ⟨e, inOrder_singleton.mp h⟩, List.Subset.refl ms⟩⟩
  have hstart := hprogram.mono continues_program
  -- Part by part, with what is expected at the place that each one leads to.
  refine Tries.rule (hprogram.canBegin completable_program startsWith_named (by decide)) ?_
  refine (Tries.of_takes Grammar.takes_emptyLines fun _ => rfl).bind fun _ d1 h1 => ?_
  subst h1
  refine (tries_header (hstart.emptyLines begins_header)).bind fun _ d2 h2 => ?_
  refine (Tries.of_takes Grammar.takes_lineEnd fun _ => rfl).bind fun _ d3 h3 => ?_
  refine (Tries.many (.of_lineEnd h2 h3) fun _ => tries_stateRow).bind fun _ d4 h4 => ?_
  refine (Tries.of_takes Grammar.takes_emptyLines fun _ => rfl).bind fun _ d5 h5 => ?_
  subst h5
  refine (tries_alphabet h4.alphabet).bind fun x d6 h6 => ?_
  refine (Tries.many h6 fun _ => tries_transitionRow).bind fun _ d7 h7 => ?_
  refine (Tries.of_takes (.goTo skipSpace) fun _ => rfl).bind fun _ d8 h8 => ?_
  subst h8
  refine (Tries.rule (canBegin_endOfText (h7.mono excludes_transition.continues_many))
    (Tries.of_takes Grammar.takes_endOfText.of_rule fun _ => rfl)).bind fun _ _ _ => .pure trivial

end Lines

/-- A rule that fails is put on record last. -/
theorem exists_fail_of_rule {α : Type} {m : Matcher α} {r : Rule} {c : Cursor} {a a' : Attempts}
    (h : Matcher.rule r m c a = (none, a')) :
    ∃ (b : Attempts) (before : Nat), a' = b.fail r c.pos before := by
  unfold Matcher.rule at h
  split at h
  case h_1 => cases h
  case h_2 after _ =>
    cases h
    exact ⟨after, _, rfl⟩

/-- A text that does not match leaves a sound record, and not an empty one. -/
theorem sound_of_draft_eq_error {text : List Char} {a : Attempts} (h : draft text = .error a) :
    a.Sound text ∧ a.failed ≠ [] := by
  have hstart : Attempts.Sound text {} := ⟨by simp, by simp⟩
  have hsound := (tries_program text {} hstart).1
  unfold draft at h
  split at h
  case h_1 => cases h
  case h_2 attempts heq =>
    cases h
    rw [heq] at hsound
    obtain ⟨b, before, rfl⟩ := exists_fail_of_rule heq
    exact ⟨hsound, hsound.failed_ne_nil⟩

/-- The rules that a report names could all begin at the place it points to: what stands before that
place is the beginning of a description in which the rule begins just there, or, for the end of the
text, it is a description. So the place is not behind the first character that no description has
there. -/
theorem expected_can_begin (text : String) (h : ∀ ms, ¬ Derives text.toList ms) :
    ∃ far failed, parse text = .error (.ofPosition text.toList far (.expected failed)) ∧
      failed ≠ [] ∧ far ≤ text.toList.length ∧
      (∀ r ∈ failed, ∃ text' ms, Derives text' ms ∧ text.toList.take far <+: text' ∧
        ⟨r, far⟩ ∈ ms ∧ (r = .endOfText → text' = text.toList.take far)) ∧
      ∀ n, (∀ text' ms, Derives text' ms → ¬ text.toList.take n <+: text') → far < n := by
  cases hd : draft text.toList with
  | ok x =>
    obtain ⟨ms, hms⟩ := exists_draft_iff.mp ⟨x, hd⟩
    exact absurd hms (h ms)
  | error a =>
    obtain ⟨hsound, hne⟩ := sound_of_draft_eq_error hd
    obtain ⟨r, hr⟩ := List.exists_mem_of_ne_nil _ hne
    refine ⟨a.far, a.failed, ?_, hne, (hsound.canBegin r hr).le,
      fun r hr => (hsound.canBegin r hr).exists_derives, fun n hn => ?_⟩
    · simp only [parse, ofChars, hd]
    · obtain ⟨text', ms, hder, hprefix, -⟩ := (hsound.canBegin r hr).exists_derives
      by_contra hle
      exact hn text' ms hder ((List.take_prefix_take_left (by omega)).trans hprefix)

/-- A mark that is none: there a mark was expected, and a description can go on with one. -/
theorem expected_can_begin_of_unknown_mark :
    ∃ far text' ms, Derives text' ms ∧ "states 1\nq x".toList.take far <+: text' ∧
      ⟨.marker, far⟩ ∈ ms := by
  have hno : ∀ ms, ¬ Derives "states 1\nq x".toList ms := by
    intro ms hms
    obtain ⟨x, hx⟩ := exists_draft_iff.mpr ⟨ms, hms⟩
    have hfails : (draft "states 1\nq x".toList).toOption = none := by decide +kernel
    rw [hx] at hfails
    cases hfails
  obtain ⟨far, failed, hparse, -, -, hall, -⟩ := expected_can_begin "states 1\nq x" hno
  have hcause : (parse "states 1\nq x").mapError (·.cause) = .error (.expected [.marker]) := by
    decide +kernel
  rw [hparse] at hcause
  obtain rfl : failed = [.marker] := ParseCause.expected.inj (Except.error.inj hcause)
  obtain ⟨text', ms, hder, hprefix, hmark, -⟩ := hall .marker List.mem_cons_self
  exact ⟨far, text', ms, hder, hprefix, hmark⟩

end SingleTape.Description
