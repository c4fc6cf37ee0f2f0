import SingleTape.Proofs.Description.Derivation
import SingleTape.Proofs.Description.Spacing

/-!
# What may come next

At a place of a text some parts of the format are expected if, whatever stands from there on, as
long as it can be derived as these parts, what stands before makes a description of it. The parts
are kept as a list, the next one first. Reading the next part takes it off the list; a rule that is
entered puts its own parts there.
-/

namespace SingleTape.Description

def Cursor.after (done rest : List Char) : Cursor := ⟨done.length, 1 + done.count '\n', rest⟩

def Heads (p : Char → Bool) (text : List Char) : Prop := ∃ c ∈ text.head?, p c = true

open Cursor Phrase

section Places

variable {done rest w : List Char} {c d : Cursor}

@[simp] theorem Cursor.pos_after : (after done rest).pos = done.length := rfl

theorem Cursor.skip_after (r : List Char) : (after done rest).skip w r = after (done ++ w) r := by
  simp [skip, after, Nat.add_assoc]

/-- Where a character of one kind comes next, none of a kind apart from it does. -/
theorem stops_of_heads {p q : Char → Bool} (hpq : ∀ c, p c = true → q c = false)
    (h : Heads p rest) : Stops q rest := by
  obtain ⟨x, hx, hp⟩ := h
  intro c hc
  obtain rfl : x = c := Option.some.inj (hx.symm.trans hc)
  exact hpq x hp

theorem Heads.mono {p q : Char → Bool} (hpq : ∀ c, p c = true → q c = true)
    (h : Heads p rest) : Heads q rest := by
  obtain ⟨x, hx, hp⟩ := h
  exact ⟨x, hx, hpq x hp⟩

theorem heads_append {p : Char → Bool} (hne : w ≠ []) (hw : ∀ c ∈ w, p c = true) :
    Heads p (w ++ rest) := by
  cases w with
  | nil => exact absurd rfl hne
  | cons x w => exact ⟨x, rfl, hw x List.mem_cons_self⟩

theorem Cursor.skip_skip {v r r' : List Char} : (c.skip v r).skip w r' = c.skip (v ++ w) r' := by
  simp [skip, Nat.add_assoc]

/-- A line break takes one of the three line endings off the text. -/
theorem exists_of_lineBreak? (h : c.lineBreak? = some d) :
    ∃ w ∈ lineEndings, c.rest = w ++ d.rest ∧ d = c.skip w d.rest := by
  unfold lineBreak? at h
  split at h
  case h_1 rest heq =>
    cases h
    exact ⟨['\r', '\n'], by decide, heq, rfl⟩
  case h_2 rest _ heq =>
    cases h
    exact ⟨['\r'], by decide, heq, rfl⟩
  case h_3 rest heq =>
    cases h
    exact ⟨['\n'], by decide, heq, rfl⟩
  case h_4 => cases h

/-- Of two ways to cut a text, one before something visible: the part that shows nothing ends there.
-/
theorem exists_of_append_eq_append {v r : List Char} (hv : ∀ x ∈ v, isVisible x = false)
    (hrest : Heads isVisible rest) (h : w ++ rest = v ++ r) : ∃ u, w = v ++ u ∧ r = u ++ rest := by
  obtain ⟨u, rfl, rfl⟩ | ⟨u, rfl, rfl⟩ := List.append_eq_append_iff.mp h
  · cases u with
    | nil => exact ⟨[], by simp, by simp⟩
    | cons x u =>
      obtain ⟨y, hy, hvis⟩ := hrest
      cases hy
      rw [hv x (by simp)] at hvis
      cases hvis
  · exact ⟨u, rfl, rfl⟩

/-- What ends a line, and what stands on empty lines: nothing visible, and last a line break. -/
structure Skippable (w : List Char) : Prop where
  invisible : ∀ x ∈ w, isVisible x = false
  above : AboveLine w

theorem Skippable.nil : Skippable [] := ⟨by simp, by simp [AboveLine]⟩

theorem Skippable.lineFeed : Skippable ['\n'] :=
  ⟨by simp [isVisible, isLineBreak], by simp [AboveLine, isLineBreak]⟩

theorem Skippable.append {v : List Char} (hv : Skippable v) (hw : Skippable w) :
    Skippable (v ++ w) where
  invisible x hx := by
    obtain hx | hx := List.mem_append.mp hx
    · exact hv.invisible x hx
    · exact hw.invisible x hx
  above := by
    cases w with
    | nil => rw [List.append_nil]; exact hv.above
    | cons x w =>
      intro y hy
      rw [List.getLast?_append_of_ne_nil v (List.cons_ne_nil x w)] at hy
      exact hw.above y hy

theorem Skippable.of_append {v : List Char} (h : Skippable (v ++ w)) : Skippable w where
  invisible x hx := h.invisible x (List.mem_append_right v hx)
  above := by
    cases w with
    | nil => intro y hy; cases hy
    | cons x w =>
      have habove := h.above
      rw [AboveLine, List.getLast?_append_of_ne_nil v (List.cons_ne_nil x w)] at habove
      exact habove

/-- A line end takes off a skippable piece, and never nothing. -/
theorem exists_of_lineEnd? (h : c.lineEnd? = some d) :
    ∃ w, w ≠ [] ∧ Skippable w ∧ c.rest = w ++ d.rest ∧ d = c.skip w d.rest := by
  obtain ⟨ending, hending, hrest, hd⟩ := exists_of_lineBreak? h
  have hb : c.rest = c.rest.takeWhile isBlank ++ c.skipBlanks.rest :=
    List.takeWhile_append_dropWhile.symm
  refine ⟨c.rest.takeWhile isBlank ++ ending, ?_, ⟨?_, aboveLine_append hending⟩, ?_, ?_⟩
  · exact List.append_ne_nil_of_right_ne_nil _ (ne_nil_of_mem_lineEndings hending)
  · intro x hx
    obtain hx | hx := List.mem_append.mp hx
    · exact isVisible_eq_false_of_isBlank (of_mem_takeWhile hx)
    · exact isVisible_eq_false_of_isLineBreak (isLineBreak_of_mem_lineEndings hending x hx)
  · rw [List.append_assoc, ← hrest]
    exact hb
  · rw [hd, ← skip_skip]
    rfl

/-- Empty lines are a skippable piece. -/
theorem exists_of_skipEmptyLines (c : Cursor) :
    ∃ w, Skippable w ∧ c.rest = w ++ c.skipEmptyLines.rest ∧
      c.skipEmptyLines = c.skip w c.skipEmptyLines.rest := by
  fun_induction skipEmptyLines c with
  | case1 c d h _ ih =>
    obtain ⟨v, -, hv, hrest, hd⟩ := exists_of_lineEnd? h
    obtain ⟨w, hw, hrest', hd'⟩ := ih
    refine ⟨v ++ w, hv.append hw, ?_, ?_⟩
    · rw [hrest, hrest', List.append_assoc]
    · rw [hd', hd, skip_skip]
      rfl
  | case2 c h => exact ⟨[], .nil, rfl, rfl⟩

/-- From the end of a line on to the next line that is not empty. -/
theorem exists_of_nextRow (h : c.lineEnd? = some d) :
    ∃ w, w ≠ [] ∧ Skippable w ∧ c.rest = w ++ d.skipEmptyLines.rest ∧
      d.skipEmptyLines = c.skip w d.skipEmptyLines.rest := by
  obtain ⟨v, hne, hv, hrest, hd⟩ := exists_of_lineEnd? h
  obtain ⟨w, hw, hrest', hd'⟩ := exists_of_skipEmptyLines d
  refine ⟨v ++ w, List.append_ne_nil_of_left_ne_nil hne w, hv.append hw, ?_, ?_⟩
  · rw [hrest, hrest', List.append_assoc]
  · rw [hd', hd, skip_skip]
    rfl

theorem Skippable.firstLine_append (hw : Skippable w) (hne : w ≠ []) :
    firstLine (w ++ rest) = firstLine w := by
  have hlast : isLineBreak (w.getLast hne) = true :=
    hw.above _ (List.getLast?_eq_some_getLast hne)
  rw [firstLine, List.takeWhile_append, if_neg]
  · rfl
  · intro hlen
    have heq := (List.takeWhile_prefix fun c => !isLineBreak c).eq_of_length hlen
    have hall := of_mem_takeWhile (p := fun c => !isLineBreak c) (l := w)
      (by rw [heq]; exact List.getLast_mem hne)
    rw [hlast] at hall
    cases hall

/-- Of what can be skipped, a line break comes before anything that is not blank. -/
theorem Skippable.lineEnd?_ne_none (hw : Skippable w) (hne : w ≠ []) (hrest : Heads isVisible rest)
    (hc : c.rest = w ++ rest) : c.lineEnd? ≠ none := by
  intro hnone
  have hwords : c.wordsAhead = [] := by
    rw [wordsAhead, words_eq_nil_iff, hc, hw.firstLine_append hne]
    intro x hx
    exact isBlank_of_isVisible_eq_false (hw.invisible x (List.takeWhile_subset _ hx))
      (by simpa using of_mem_takeWhile hx)
  have hbelow := linesBelow_of_lineEnd?_eq_none hnone hwords
  have hall := wordsAhead_and_linesBelow_eq_nil_iff.mp ⟨hwords, hbelow⟩
  obtain ⟨x, hx, hv⟩ := hrest
  rw [hall x (by rw [hc]; exact List.mem_append_right w (List.mem_of_head? hx))] at hv
  cases hv

/-- What can be skipped is skipped, whatever visible follows. -/
theorem Skippable.skipEmptyLines_after (hw : Skippable w) (hrest : Heads isVisible rest) :
    (after done (w ++ rest)).skipEmptyLines = after (done ++ w) rest := by
  generalize hc : after done (w ++ rest) = c
  fun_induction skipEmptyLines c generalizing done w with
  | case1 c d h _ ih =>
    subst hc
    obtain ⟨v, -, hv, hrest', hd⟩ := exists_of_lineEnd? h
    -- The line that ends is a part of what can be skipped, since it shows nothing visible.
    obtain ⟨u, rfl, hu⟩ := exists_of_append_eq_append hv.invisible hrest hrest'
    rw [ih (hw.of_append) (by rw [hd, hu, skip_after]), List.append_assoc]
  | case2 c h =>
    subst hc
    cases w with
    | nil => simp
    | cons x w => exact absurd h (hw.lineEnd?_ne_none (List.cons_ne_nil x w) hrest rfl)

/-- After what ends a line, and the empty lines below it, the next line is reached. -/
theorem Skippable.lineEnd?_after (hw : Skippable w) (hne : w ≠ []) (done : List Char)
    (hrest : Heads isVisible rest) :
    ∃ d, (after done (w ++ rest)).lineEnd? = some d ∧
      d.skipEmptyLines = after (done ++ w) rest := by
  cases h : (after done (w ++ rest)).lineEnd? with
  | none => exact absurd h (hw.lineEnd?_ne_none hne hrest rfl)
  | some d =>
    refine ⟨d, rfl, ?_⟩
    rw [← hw.skipEmptyLines_after hrest, skipEmptyLines.eq_def (after done (w ++ rest))]
    split
    case h_1 e he =>
      rw [h] at he
      cases he
      rfl
    case h_2 he =>
      rw [h] at he
      cases he

/-- A text with nothing visible in it is skipped to its end. -/
theorem Cursor.skipSpace_after (hw : ∀ x ∈ w, isVisible x = false) :
    (after done w).skipSpace = after (done ++ w) [] := by
  have htake : w.takeWhile (fun x => !isVisible x) = w :=
    List.takeWhile_eq_self_iff.mpr fun x hx => by simp [hw x hx]
  have hdrop : w.dropWhile (fun x => !isVisible x) = [] :=
    List.dropWhile_eq_nil_iff.mpr fun x hx => by simp [hw x hx]
  show (after done w).skip (w.takeWhile _) (w.dropWhile _) = _
  rw [htake, hdrop, skip_after]

end Places

section Parts

variable {As Ks Ks' : List Phrase} {A : Phrase} {r : Rule} {c d : Cursor}

/-- Whatever is derived by the first parts is derived by the second, with the marks it has there. -/
def Continues (Ks' Ks : List Phrase) : Prop :=
  ∀ c ms e, inOrder Ks' c ms e → ∃ all, inOrder Ks c all e ∧ ms ⊆ all

/-- What continues the end of a list of parts continues the list. -/
theorem Continues.append_left (As : List Phrase) (h : Continues Ks' Ks) :
    Continues (As ++ Ks') (As ++ Ks) := by
  intro c ms e hms
  obtain ⟨xs, d, ys, hAs, hKs, rfl⟩ := inOrder_append.mp hms
  obtain ⟨all, hall, hsub⟩ := h d ys e hKs
  refine ⟨xs ++ all, inOrder_append.mpr ⟨xs, d, all, hAs, hall, rfl⟩, ?_⟩
  exact List.append_subset.mpr ⟨List.subset_append_left _ _,
    List.Subset.trans hsub (List.subset_append_right _ _)⟩

theorem continues_notAhead {f : Cursor → Option Cursor} : Continues (notAhead f :: Ks) Ks :=
  fun _ ms _ h => ⟨ms, (inOrder_notAhead_cons.mp h).2, List.Subset.refl _⟩

theorem continues_named (As : List Phrase) : Continues (As ++ Ks) (named r As :: Ks) := by
  intro c ms e h
  obtain ⟨xs, d, ys, hAs, hKs, rfl⟩ := inOrder_append.mp h
  exact ⟨_, ⟨⟨r, c.pos⟩ :: xs, d, ys, ⟨xs, hAs, rfl⟩, hKs, rfl⟩, List.subset_cons_self _ _⟩

theorem continues_optional (As : List Phrase) : Continues (As ++ Ks) (optional As :: Ks) := by
  intro c ms e h
  obtain ⟨xs, d, ys, hAs, hKs, rfl⟩ := inOrder_append.mp h
  exact ⟨xs ++ ys, ⟨xs, d, ys, .inl hAs, hKs, rfl⟩, List.Subset.refl _⟩

/-- A repetition may go once round again. -/
theorem continues_many (As : List Phrase) :
    Continues (As ++ many As :: Ks) (many As :: Ks) := by
  intro c ms e h
  obtain ⟨xs, d, _, hAs, ⟨ys, f, zs, hmany, hKs, rfl⟩, rfl⟩ := inOrder_append.mp h
  exact ⟨_, ⟨xs ++ ys, f, zs, .more hAs hmany, hKs, by simp⟩, List.Subset.refl _⟩

def Excludes (Ks As : List Phrase) : Prop :=
  ∀ c ms e, inOrder Ks c ms e → ∀ xs d, ¬ inOrder As c xs d

theorem Excludes.continues_optional (h : Excludes Ks As) : Continues Ks (optional As :: Ks) :=
  fun c ms e hms =>
    ⟨ms, ⟨[], c, ms, .inr ⟨rfl, rfl, h c ms e hms⟩, hms, rfl⟩, List.Subset.refl _⟩

theorem Excludes.continues_many (h : Excludes Ks As) : Continues Ks (many As :: Ks) :=
  fun c ms e hms => ⟨ms, ⟨[], c, ms, .stop (h c ms e hms), hms, rfl⟩, List.Subset.refl _⟩

/-- What the parts can be derived from begins like this. -/
def Begins (Ks : List Phrase) (Q : List Char → Prop) : Prop :=
  ∀ c ms e, inOrder Ks c ms e → Q c.rest

theorem Begins.mono {Q Q' : List Char → Prop} (h : Begins Ks Q) (hQ : ∀ t, Q t → Q' t) :
    Begins Ks Q' := fun c ms e hms => hQ _ (h c ms e hms)

theorem Begins.named {Q : List Char → Prop} (h : Begins (As ++ Ks) Q) :
    Begins (named r As :: Ks) Q := by
  rintro c _ e ⟨_, d, ys, ⟨xs, hAs, rfl⟩, hKs, rfl⟩
  exact h c (xs ++ ys) e (inOrder_append.mpr ⟨xs, d, ys, hAs, hKs, rfl⟩)

def Reads (As : List Phrase) (w : List Char) (Q : List Char → Prop) : Prop :=
  ∀ done rest, Q rest → ∃ ms, inOrder As (after done (w ++ rest)) ms (after (done ++ w) rest)

theorem Reads.named {w : List Char} {Q : List Char → Prop} (h : Reads As w Q) :
    Reads [named r As] w Q := by
  intro done rest hrest
  obtain ⟨ms, hms⟩ := h done rest hrest
  exact ⟨_, _, _, [], ⟨ms, hms, rfl⟩, ⟨rfl, rfl⟩, rfl⟩

/-- Some text, wherever it stands, is derived by the parts. -/
def Completable (Ks : List Phrase) : Prop :=
  ∃ text, ∀ done, ∃ ms e, inOrder Ks (after done text) ms e

theorem Completable.mono (h : Completable Ks') (hK : Continues Ks' Ks) : Completable Ks := by
  obtain ⟨text, htext⟩ := h
  refine ⟨text, fun done => ?_⟩
  obtain ⟨ms, e, hms⟩ := htext done
  obtain ⟨all, hall, -⟩ := hK _ ms e hms
  exact ⟨all, e, hall⟩

/-- Parts can be completed by a text for the first of them, if the rest can be completed behind it.
-/
theorem Completable.reads {w : List Char} {Q : List Char → Prop} (h : Completable Ks)
    (hQ : Begins Ks Q) (hw : Reads As w Q) : Completable (As ++ Ks) := by
  obtain ⟨text, htext⟩ := h
  refine ⟨w ++ text, fun done => ?_⟩
  obtain ⟨ys, e, hys⟩ := htext (done ++ w)
  obtain ⟨xs, hxs⟩ := hw done text (hQ _ ys e hys)
  exact ⟨xs ++ ys, e, inOrder_append.mpr ⟨xs, _, ys, hxs, hys, rfl⟩⟩

def StartsWith (Ks : List Phrase) (r : Rule) : Prop :=
  ∀ c ms e, inOrder Ks c ms e → ⟨r, c.pos⟩ ∈ ms

theorem startsWith_named : StartsWith (named r As :: Ks) r := by
  rintro c _ e ⟨_, d, ys, ⟨xs, -, rfl⟩, -, rfl⟩
  exact List.mem_cons_self

theorem StartsWith.notAhead {f : Cursor → Option Cursor} (h : StartsWith Ks r) :
    StartsWith (notAhead f :: Ks) r := by
  intro c ms e hms
  exact h c ms e (inOrder_notAhead_cons.mp hms).2

/-- In the text, the parts are expected at the place: put there a text that they derive, and all is
derived, marks of the parts included. -/
def Expects (text : List Char) (Ks : List Phrase) (c : Cursor) : Prop :=
  ∃ done rest, text = done ++ rest ∧ c = after done rest ∧
    ∀ rest' ms e, inOrder Ks (after done rest') ms e → ∃ all, Derives (done ++ rest') all ∧ ms ⊆ all

namespace Expects

variable {text w : List Char}

theorem mono (h : Expects text Ks c) (hK : Continues Ks' Ks) : Expects text Ks' c := by
  obtain ⟨done, rest, htext, hc, hall⟩ := h
  refine ⟨done, rest, htext, hc, fun rest' ms e hms => ?_⟩
  obtain ⟨xs, hxs, hsub⟩ := hK _ ms e hms
  obtain ⟨all, hder, hsub'⟩ := hall rest' xs e hxs
  exact ⟨all, hder, fun _ hm => hsub' (hsub hm)⟩

/-- After a piece that the first parts read, the other parts are expected. -/
theorem reads {Q : List Char → Prop} (h : Expects text (As ++ Ks) c) (hQ : Begins Ks Q)
    (hw : Reads As w Q) (hrest : c.rest = w ++ d.rest) (hd : d = c.skip w d.rest) :
    Expects text Ks d := by
  obtain ⟨done, rest, rfl, rfl, hall⟩ := h
  obtain rfl : rest = w ++ d.rest := hrest
  refine ⟨done ++ w, d.rest, by simp, by rw [hd, skip_after]; rfl, fun rest' ys e hys => ?_⟩
  obtain ⟨xs, hxs⟩ := hw done rest' (hQ _ ys e hys)
  obtain ⟨all, hder, hsub⟩ :=
    hall (w ++ rest') (xs ++ ys) e (inOrder_append.mpr ⟨xs, _, ys, hxs, hys, rfl⟩)
  exact ⟨all, by rwa [List.append_assoc], fun _ hm => hsub (List.mem_append_right xs hm)⟩

end Expects

end Parts

section Terminals

variable {w : List Char} {Ks : List Phrase} {p : Char → Bool}

theorem reads_word {v : List Char} (hv : Spells v w) : Reads [word w] v fun _ => True := by
  intro done rest _
  have hword : (after done (v ++ rest)).word? w = some (after (done ++ v) rest) :=
    word?_eq_some_iff.mpr ⟨v, hv, rfl, (skip_after rest).symm⟩
  exact ⟨[], inOrder_singleton.mpr ⟨hword, rfl⟩⟩

theorem piece_after {done rest : List Char} (hne : w ≠ []) (hw : ∀ x ∈ w, p x = true)
    (hrest : Stops p rest) : Piece p (after done (w ++ rest)) w (after (done ++ w) rest) := by
  rw [← skip_after]
  exact piece_skip hne hw rfl hrest

theorem reads_token (hne : w ≠ []) (hw : ∀ x ∈ w, p x = true) : Reads [token p] w (Stops p) :=
  fun _ _ hrest => ⟨[], inOrder_singleton.mpr ⟨⟨w, piece_after hne hw hrest⟩, rfl⟩⟩

theorem reads_gap (hne : w ≠ []) (hw : ∀ x ∈ w, isBlank x = true) :
    Reads [gap] w (Stops isBlank) := fun _ _ hrest =>
  ⟨[], inOrder_singleton.mpr ⟨blanks?_eq_some_iff.mpr ⟨w, piece_after hne hw hrest⟩, rfl⟩⟩

theorem reads_sign (m : Marker) : Reads [sign] [m.char] fun _ => True :=
  fun _ rest _ => ⟨[], inOrder_singleton.mpr ⟨⟨m, rfl, (skip_after rest).symm⟩, rfl⟩⟩

theorem reads_emptyLines (hw : Skippable w) : Reads [emptyLines] w (Heads isVisible) :=
  fun _ _ hrest =>
    ⟨[], inOrder_singleton.mpr ⟨congrArg some (hw.skipEmptyLines_after hrest), rfl⟩⟩

theorem reads_lineEnd (hne : w ≠ []) (hw : Skippable w) :
    Reads [lineEnd, emptyLines] w (Heads isVisible) := by
  intro done rest hrest
  obtain ⟨d, hd, hskip⟩ := hw.lineEnd?_after hne done hrest
  exact ⟨[], inOrder_take_cons.mpr ⟨d, hd, inOrder_singleton.mpr ⟨congrArg some hskip, rfl⟩⟩⟩

/-- A line that ends without blanks, if it must. -/
theorem reads_bareLineEnd (hne : w ≠ []) (hw : Skippable w) (hb : Stops isBlank w) :
    Reads [notAhead blanks?, lineEnd, emptyLines] w (Heads isVisible) := by
  intro done rest hrest
  obtain ⟨ms, hms⟩ := reads_lineEnd hne hw done rest hrest
  refine ⟨ms, inOrder_notAhead_cons.mpr ⟨?_, hms⟩⟩
  -- Blanks taken off would begin with the first character, which is none.
  cases h : (after done (w ++ rest)).blanks? with
  | none => rfl
  | some d =>
    obtain ⟨b, hb'⟩ := blanks?_eq_some_iff.mp h
    cases w with
    | nil => exact absurd rfl hne
    | cons x w =>
      have hx : isBlank x = true := by
        have hrest : x :: (w ++ rest) = b ++ d.rest := hb'.rest
        cases b with
        | nil => exact absurd rfl hb'.ne_nil
        | cons y b =>
          obtain rfl := (List.cons.inj hrest).1
          exact hb'.all x List.mem_cons_self
      rw [hb x rfl] at hx
      cases hx

theorem begins_token : Begins (token p :: Ks) (Heads p) := by
  rintro c _ e ⟨_, d, _, ⟨⟨w, hw⟩, rfl⟩, -, rfl⟩
  rw [hw.rest]
  exact heads_append hw.ne_nil hw.all

theorem begins_gap : Begins (gap :: Ks) (Stops isVisible) := by
  intro c ms e h
  obtain ⟨d, hgap, -⟩ := inOrder_take_cons.mp h
  obtain ⟨b, hb⟩ := blanks?_eq_some_iff.mp hgap
  exact hb.atGap

theorem begins_sign : Begins (sign :: Ks) (Heads isVisible) := by
  rintro c _ e ⟨_, d, _, ⟨⟨m, hm, -⟩, rfl⟩, -, rfl⟩
  rw [hm]
  exact ⟨_, rfl, m.isVisible_char⟩

theorem begins_word (hne : w ≠ []) (hw : w.all isNameChar = true) :
    Begins (word w :: Ks) (Heads isVisible) := by
  intro c ms e h
  obtain ⟨d, hword, -⟩ := inOrder_take_cons.mp h
  obtain ⟨v, hv, hrest, -⟩ := word?_eq_some_iff.mp hword
  rw [hrest]
  apply heads_append
  · rintro rfl
    exact hne hv.symm
  · exact fun x hx => isVisible_of_isNameChar (hv.isNameChar hw x hx)

end Terminals

end SingleTape.Description
