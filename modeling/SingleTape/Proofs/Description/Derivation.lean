import SingleTape.Proofs.Description.Rules

/-!
# Derivations

How a text has the format: which rule begins where. A derivation is written down as its marks, one
for each rule that matches, in the order in which the rules begin. The derivations of the rules are
put together here just as the rules are; a matcher finds the one derivation there is.
-/

namespace SingleTape.Description

structure Mark where
  rule : Rule
  pos : Nat
deriving DecidableEq

/-- A part of the format: from one place to another, by what marks it is derived. -/
def Phrase : Type := Cursor → List Mark → Cursor → Prop

namespace Phrase

def take (f : Cursor → Option Cursor) : Phrase := fun c ms d => f c = some d ∧ ms = []

def goTo (f : Cursor → Cursor) : Phrase := take fun c => some (f c)

/-- No step, where a function on cursors fails. -/
def notAhead (f : Cursor → Option Cursor) : Phrase := fun c ms d => f c = none ∧ c = d ∧ ms = []

def token (p : Char → Bool) : Phrase := fun c ms d => (∃ w, Cursor.Piece p c w d) ∧ ms = []

def inOrder : List Phrase → Phrase
  | [] => fun c ms d => c = d ∧ ms = []
  | A :: As => fun c ms e => ∃ xs d ys, A c xs d ∧ inOrder As d ys e ∧ ms = xs ++ ys

def named (r : Rule) (As : List Phrase) : Phrase :=
  fun c ms d => ∃ inner, inOrder As c inner d ∧ ms = ⟨r, c.pos⟩ :: inner

def optional (As : List Phrase) : Phrase := fun c ms d =>
  inOrder As c ms d ∨ (c = d ∧ ms = [] ∧ ∀ xs e, ¬ inOrder As c xs e)

/-- The parts as often as they can be derived. -/
inductive many (As : List Phrase) : Phrase
  | stop {c : Cursor} : (∀ ms d, ¬ inOrder As c ms d) → many As c [] c
  | more {c d e : Cursor} {xs ys : List Mark} :
      inOrder As c xs d → many As d ys e → many As c (xs ++ ys) e

/-! ## The rules -/

def gap : Phrase := take Cursor.blanks?

def lineEnd : Phrase := take Cursor.lineEnd?

def emptyLines : Phrase := goTo Cursor.skipEmptyLines

def space : Phrase := goTo Cursor.skipSpace

def word (w : List Char) : Phrase := take fun c => c.word? w

def name : Phrase := named .name [token isNameChar]

def symbol : Phrase := named .symbol [token isVisible]

def count : Phrase := named .count [token Char.isDigit]

def direction : Phrase := named .direction [token isVisible]

def sign : Phrase := fun c ms d =>
  (∃ m : Marker, c.rest = m.char :: d.rest ∧ d = c.skip [m.char] d.rest) ∧ ms = []

def marker : Phrase := named .marker [sign]

def nothingLeft : Phrase := fun c ms d => c.rest = [] ∧ c = d ∧ ms = []

def endOfText : Phrase := named .endOfText [nothingLeft]

def header : Phrase := named .header [word Grammar.statesWord, gap, count]

def state : Phrase :=
  named .state [notAhead Grammar.alphabetStart?, name, optional [gap, marker]]

def alphabet : Phrase :=
  named .alphabet [word Grammar.alphabetWord, gap, count, many [gap, symbol]]

def transition : Phrase :=
  named .transition [name, gap, symbol, gap, name, gap, symbol, gap, direction]

def states : Phrase := many [emptyLines, state, lineEnd]

def transitions : Phrase := many [lineEnd, emptyLines, transition]

def program : Phrase :=
  named .program [emptyLines, header, lineEnd, states, emptyLines, alphabet, transitions, space,
    endOfText]

section InOrder

variable {f : Cursor → Option Cursor} {g : Cursor → Cursor} {A : Phrase}
  {As Bs : List Phrase} {c e : Cursor} {ms : List Mark}

theorem inOrder_singleton : inOrder [A] c ms e ↔ A c ms e := by simp [inOrder]

/-- The first part takes something off, and the others go on from there. -/
theorem inOrder_take_cons :
    inOrder (take f :: As) c ms e ↔ ∃ d, f c = some d ∧ inOrder As d ms e := by
  constructor
  · rintro ⟨_, d, ys, ⟨hd, rfl⟩, hAs, rfl⟩
    exact ⟨d, hd, hAs⟩
  · rintro ⟨d, hd, hAs⟩
    exact ⟨[], d, ms, ⟨hd, rfl⟩, hAs, rfl⟩

theorem inOrder_goTo_cons : inOrder (goTo g :: As) c ms e ↔ inOrder As (g c) ms e := by
  rw [goTo, inOrder_take_cons]
  simp

/-- A part that looks ahead leaves no mark and does not move. -/
theorem inOrder_notAhead_cons :
    inOrder (notAhead f :: As) c ms e ↔ f c = none ∧ inOrder As c ms e := by
  constructor
  · rintro ⟨_, _, ys, ⟨hno, rfl, rfl⟩, hAs, rfl⟩
    exact ⟨hno, hAs⟩
  · rintro ⟨hno, hAs⟩
    exact ⟨[], c, ms, ⟨hno, rfl, rfl⟩, hAs, rfl⟩

theorem inOrder_append : inOrder (As ++ Bs) c ms e ↔
    ∃ xs d ys, inOrder As c xs d ∧ inOrder Bs d ys e ∧ ms = xs ++ ys := by
  induction As generalizing c ms with
  | nil =>
    constructor
    · intro h
      exact ⟨[], c, ms, ⟨rfl, rfl⟩, h, rfl⟩
    · rintro ⟨_, _, ys, ⟨rfl, rfl⟩, h, rfl⟩
      exact h
  | cons A As ih =>
    constructor
    · rintro ⟨xs, d, ys, hA, hrest, rfl⟩
      obtain ⟨us, f, vs, hAs, hBs, rfl⟩ := ih.mp hrest
      exact ⟨xs ++ us, f, vs, ⟨xs, d, us, hA, hAs, rfl⟩, hBs, by simp⟩
    · rintro ⟨_, f, vs, ⟨xs, d, us, hA, hAs, rfl⟩, hBs, rfl⟩
      exact ⟨xs, d, us ++ vs, hA, ih.mpr ⟨us, f, vs, hAs, hBs, rfl⟩, by simp⟩

end InOrder

end Phrase

/-- The text has the format, by these marks. -/
def Derives (text : List Char) (ms : List Mark) : Prop :=
  ∃ d, Phrase.program { rest := text } ms d

theorem Takes.of_rule {α : Type} {m : Matcher α} {r : Rule} {P : Cursor → α → Cursor → Prop}
    (h : Takes (Matcher.rule r m) P) : Takes m P :=
  fun c a x d => by rw [← h c a, Matcher.fst_rule]

/-- The matcher finds the derivation, and there is no other; where it fails there is none. -/
def Follows {α : Type} (m : Matcher α) (A : Phrase) : Prop := ∀ c a,
  (∃ x d a' ms, m c a = (some (x, d), a') ∧ A c ms d ∧ ∀ xs e, A c xs e → xs = ms ∧ e = d) ∨
    (∃ a', m c a = (none, a')) ∧ ∀ ms d, ¬ A c ms d

namespace Follows

open Matcher Phrase

variable {α β : Type} {m : Matcher α} {A : Phrase} {As : List Phrase}

/-- A matcher that follows a part succeeds exactly where the part can be derived. -/
theorem matches_iff (h : Follows m A) (c : Cursor) (a : Attempts) (d : Cursor) :
    (∃ x, (m c a).1 = some (x, d)) ↔ ∃ ms, A c ms d := by
  obtain ⟨x, e, a', ms, hm, hA, hall⟩ | ⟨⟨a', hm⟩, hno⟩ := h c a
  · rw [hm]
    constructor
    · rintro ⟨y, hy⟩
      cases hy
      exact ⟨ms, hA⟩
    · rintro ⟨xs, hxs⟩
      obtain ⟨-, rfl⟩ := hall xs d hxs
      exact ⟨x, rfl⟩
  · rw [hm]
    constructor
    · rintro ⟨y, hy⟩
      cases hy
    · rintro ⟨xs, hxs⟩
      exact absurd hxs (hno xs d)

/-- A part with a matcher that follows it has one derivation from any place. -/
theorem unique (h : Follows m A) {c d e : Cursor} {xs ys : List Mark} (h1 : A c xs d)
    (h2 : A c ys e) : xs = ys ∧ d = e := by
  obtain ⟨-, f, -, ms, -, -, hall⟩ | ⟨-, hno⟩ := h c {}
  · obtain ⟨rfl, rfl⟩ := hall xs d h1
    obtain ⟨rfl, rfl⟩ := hall ys e h2
    exact ⟨rfl, rfl⟩
  · exact absurd h1 (hno xs d)

theorem congr {B : Phrase} (h : Follows m A) (hAB : ∀ c ms d, A c ms d ↔ B c ms d) :
    Follows m B := by
  obtain rfl : A = B := funext fun c => funext fun ms => funext fun d => propext (hAB c ms d)
  exact h

/-- A matcher without named rules inside leaves no mark. -/
theorem of_takes {P : Cursor → α → Cursor → Prop} (h : Takes m P)
    (hA : ∀ c ms d, A c ms d ↔ (∃ x, P c x d) ∧ ms = []) : Follows m A := by
  intro c a
  obtain ⟨x, d, a', hm, hP⟩ | ⟨hm, hno⟩ := h.cases c a
  · refine .inl ⟨x, d, a', [], hm, (hA c [] d).mpr ⟨⟨x, hP⟩, rfl⟩, fun xs e he => ?_⟩
    obtain ⟨⟨y, hy⟩, rfl⟩ := (hA c xs e).mp he
    exact ⟨rfl, (h.unique hy hP).2⟩
  · refine .inr ⟨hm, fun ms d hd => ?_⟩
    obtain ⟨⟨x, hx⟩, -⟩ := (hA c ms d).mp hd
    exact hno x d hx

/-- A matcher that takes off what a function on cursors does follows the part that does the same.
-/
theorem take (f : Cursor → Option Cursor) : Follows (Matcher.take f) (Phrase.take f) :=
  of_takes (.take f) fun _ _ _ => by simp [Phrase.take]

theorem goTo (f : Cursor → Cursor) : Follows (Matcher.goTo f) (Phrase.goTo f) :=
  of_takes (.goTo f) fun _ _ _ => by simp [Phrase.goTo, Phrase.take]

theorem notAhead (f : Cursor → Option Cursor) :
    Follows (Matcher.notAhead f) (Phrase.notAhead f) :=
  of_takes (.notAhead f) fun _ _ _ => by simp [Phrase.notAhead, and_assoc]

/-- The matcher of tokens takes the longest piece of a kind, and there is no other. -/
theorem token (p : Char → Bool) : Follows (Matcher.token p) (Phrase.token p) := by
  refine of_takes (.token p) fun c ms d => and_congr_left fun _ => ⟨?_, ?_⟩
  · rintro ⟨w, hw⟩
    obtain ⟨t, rfl, ht⟩ := hw.exists_token
    exact ⟨t, hw, ht⟩
  · rintro ⟨t, ht, -⟩
    exact ⟨t.chars, ht⟩

theorem text (p : Char → Bool) :
    Follows (do return (← Matcher.token p).text : Matcher String) (Phrase.token p) := by
  refine of_takes (.text p) fun c ms d => and_congr_left fun _ => ⟨?_, ?_⟩
  · rintro ⟨w, hw⟩
    exact ⟨String.ofList w, by rwa [String.toList_ofList]⟩
  · rintro ⟨s, hs⟩
    exact ⟨s.toList, hs⟩

theorem pure (x : α) : Follows (Pure.pure x) (inOrder []) :=
  of_takes (.pure x) fun _ _ _ => by simp [inOrder]

/-- One matcher after the other follows one part after the other. -/
theorem bind {f : α → Matcher β} (hm : Follows m A) (hf : ∀ x, Follows (f x) (inOrder As)) :
    Follows (m >>= f) (inOrder (A :: As)) := by
  intro c a
  obtain ⟨x, d, a1, xs, h, hA, hall⟩ | ⟨⟨a1, h⟩, hno⟩ := hm c a
  · rw [bind_of_some h]
    obtain ⟨y, e, a2, ys, h', hAs, hall'⟩ | ⟨⟨a2, h'⟩, hno⟩ := hf x d a1
    · refine .inl ⟨y, e, a2, xs ++ ys, h', ⟨xs, d, ys, hA, hAs, rfl⟩, ?_⟩
      rintro _ e' ⟨xs', d', ys', hA', hAs', rfl⟩
      obtain ⟨rfl, rfl⟩ := hall xs' d' hA'
      obtain ⟨rfl, rfl⟩ := hall' ys' e' hAs'
      exact ⟨rfl, rfl⟩
    · refine .inr ⟨⟨a2, h'⟩, ?_⟩
      rintro _ e ⟨xs', d', ys', hA', hAs', rfl⟩
      obtain ⟨rfl, rfl⟩ := hall xs' d' hA'
      exact hno ys' e hAs'
  · rw [bind_of_none h]
    refine .inr ⟨⟨a1, rfl⟩, ?_⟩
    rintro _ e ⟨xs, d, ys, hA, -, rfl⟩
    exact hno xs d hA

theorem line_bind {f : Nat → Matcher α} (hf : ∀ n, Follows (f n) A) : Follows (line >>= f) A :=
  fun c a => hf c.line c a

/-- Nothing comes after the last part. -/
theorem last (hm : Follows m A) : Follows m (inOrder [A]) :=
  hm.congr fun _ _ _ => inOrder_singleton.symm

theorem rule (r : Rule) (hm : Follows m (inOrder As)) : Follows (rule r m) (named r As) := by
  intro c a
  obtain ⟨x, d, a', ms, h, hA, hall⟩ | ⟨⟨a', h⟩, hno⟩ := hm c a
  · refine .inl ⟨x, d, a', ⟨r, c.pos⟩ :: ms, ?_, ⟨ms, hA, rfl⟩, ?_⟩
    · simp only [Matcher.rule, h]
    · rintro _ e ⟨xs, hxs, rfl⟩
      obtain ⟨rfl, rfl⟩ := hall xs e hxs
      exact ⟨rfl, rfl⟩
  · refine .inr ⟨⟨a'.fail r c.pos (a.countAt c.pos), ?_⟩, ?_⟩
    · simp only [Matcher.rule, h]
    · rintro _ e ⟨xs, hxs, rfl⟩
      exact hno xs e hxs

/-- A named rule that is known by what it takes off. -/
theorem terminal (r : Rule) {P : Cursor → α → Cursor → Prop} (h : Takes (Matcher.rule r m) P)
    (hA : ∀ c ms d, A c ms d ↔ (∃ x, P c x d) ∧ ms = []) :
    Follows (Matcher.rule r m) (named r [A]) :=
  (of_takes h.of_rule hA).last.rule r

theorem optional (hm : Follows m (inOrder As)) :
    Follows (optional m) (Phrase.optional As) := by
  intro c a
  obtain ⟨x, d, a', ms, h, hA, hall⟩ | ⟨⟨a', h⟩, hno⟩ := hm c a
  · refine .inl ⟨some x, d, a', ms, optional_of_some h, .inl hA, ?_⟩
    rintro xs e (hxs | ⟨-, -, hno⟩)
    · exact hall xs e hxs
    · exact absurd hA (hno ms d)
  · refine .inl ⟨none, c, a', [], optional_of_none h, .inr ⟨rfl, rfl, hno⟩, ?_⟩
    rintro xs e (hxs | ⟨rfl, rfl, -⟩)
    · exact absurd hxs (hno xs e)
    · exact ⟨rfl, rfl⟩

/-- A repetition follows its parts, one derivation after the other. -/
theorem manyUpTo (hm : Follows m (inOrder As))
    (hAs : ∀ {c ms d}, inOrder As c ms d → d.rest.length < c.rest.length) (n : Nat)
    (xs : Array α) {c : Cursor} (hn : c.rest.length < n) (a : Attempts) :
    ∃ ys d a' ms, manyUpTo m n xs c a = (some (ys, d), a') ∧ Phrase.many As c ms d ∧
      ∀ zs e, Phrase.many As c zs e → zs = ms ∧ e = d := by
  -- The induction is on the tries, of which there are enough as in `Takes.manyUpTo`.
  induction n generalizing xs c a with
  | zero => omega
  | succ n ih =>
    obtain ⟨x, d, a1, ms, h, hA, hall⟩ | ⟨⟨a1, h⟩, hno⟩ := hm c a
    · have hlt := hAs hA
      obtain ⟨ys, e, a2, ms', h', hmany, hall'⟩ := ih (xs.push x) (c := d) (by omega) a1
      refine ⟨ys, e, a2, ms ++ ms', (manyUpTo_of_some h).trans h', .more hA hmany, ?_⟩
      intro zs f hzs
      cases hzs with
      | stop hno => exact absurd hA (hno ms d)
      | @more _ d' _ xs ys hA' hmany' =>
        obtain ⟨rfl, rfl⟩ := hall xs d' hA'
        obtain ⟨rfl, rfl⟩ := hall' ys f hmany'
        exact ⟨rfl, rfl⟩
    · refine ⟨xs, c, a1, [], manyUpTo_of_none h, .stop hno, ?_⟩
      intro zs f hzs
      cases hzs with
      | stop _ => exact ⟨rfl, rfl⟩
      | @more _ d' _ xs ys hA' _ => exact absurd hA' (hno xs d')

/-- A matcher that repeats follows the part that repeats, as long as each round takes off
something. -/
theorem many (hm : Follows m (inOrder As))
    (hAs : ∀ {c ms d}, inOrder As c ms d → d.rest.length < c.rest.length) :
    Follows (many m) (Phrase.many As) := by
  intro c a
  obtain ⟨ys, d, a', ms, h, hmany, hall⟩ :=
    hm.manyUpTo hAs (c.rest.length + 1) #[] (Nat.lt_succ_self _) a
  exact .inl ⟨ys.toList, d, a', ms, bind_of_some h, hmany, hall⟩

/-- Something can be read from one place to another just if that can be derived. -/
theorem exists_iff {P : Cursor → α → Cursor → Prop} (h : Follows m A) (hm : Takes m P)
    {c d : Cursor} : (∃ x, P c x d) ↔ ∃ ms, A c ms d := by
  rw [← h.matches_iff c {} d]
  exact exists_congr fun x => (hm c {} x d).symm

/-- Reading and deriving lead to the same place. -/
theorem place_eq {P : Cursor → α → Cursor → Prop} (h : Follows m A) (hm : Takes m P)
    {c d e : Cursor} {x : α} {ms : List Mark} (hP : P c x d) (hA : A c ms e) : e = d := by
  obtain ⟨y, hy⟩ := (h.exists_iff hm).mpr ⟨ms, hA⟩
  exact (hm.unique hy hP).2

/-- What the matcher takes off, it takes off along the derivation. -/
theorem length_rest_lt {P : Cursor → α → Cursor → Prop} (h : Follows m A) (hm : Takes m P)
    (hP : ∀ {c x d}, P c x d → d.rest.length < c.rest.length) {c d : Cursor} {ms : List Mark}
    (hA : A c ms d) : d.rest.length < c.rest.length := by
  obtain ⟨x, hx⟩ := (h.exists_iff hm).mpr ⟨ms, hA⟩
  exact hP hx

end Follows

namespace Grammar

open Phrase

theorem follows_gap : Follows gap Phrase.gap := .take _

theorem follows_lineEnd : Follows lineEnd Phrase.lineEnd := .take _

theorem follows_emptyLines : Follows emptyLines Phrase.emptyLines := .goTo _

theorem follows_word (w : List Char) : Follows (word w) (Phrase.word w) := .take _

theorem follows_name : Follows name Phrase.name := (Follows.text isNameChar).last.rule .name

theorem follows_symbol : Follows symbol Phrase.symbol :=
  (Follows.text isVisible).last.rule .symbol

theorem follows_count : Follows count Phrase.count :=
  (Follows.token Char.isDigit).last.rule .count

theorem follows_direction : Follows direction Phrase.direction :=
  (Follows.token isVisible).last.rule .direction

theorem follows_header : Follows header Phrase.header :=
  ((follows_word statesWord).bind fun _ => follows_gap.bind fun _ =>
    follows_count.last).rule .header

theorem follows_marker : Follows marker Phrase.marker :=
  .terminal .marker takes_marker fun _ _ _ => Iff.rfl

theorem follows_endOfText : Follows endOfText Phrase.endOfText :=
  .terminal .endOfText takes_endOfText fun _ _ _ => by simp [nothingLeft, and_assoc]

theorem follows_state : Follows state Phrase.state :=
  ((Follows.notAhead _).bind fun _ => follows_name.bind fun _ =>
    (follows_gap.bind fun _ => follows_marker.last).optional.bind fun _ => .pure _).rule .state

theorem follows_cell : Follows (do gap; symbol) (inOrder [Phrase.gap, Phrase.symbol]) :=
  follows_gap.bind fun _ => follows_symbol.last

theorem follows_alphabet : Follows alphabet Phrase.alphabet := by
  have hcells := follows_cell.many
    (follows_cell.length_rest_lt takes_column_symbol Cursor.Column.length_rest_lt)
  exact ((follows_word alphabetWord).bind fun _ => follows_gap.bind fun _ =>
    follows_count.bind fun _ => hcells.bind fun _ => .pure _).rule .alphabet

theorem follows_transition : Follows transition Phrase.transition :=
  (Follows.line_bind fun _ => follows_name.bind fun _ => follows_gap.bind fun _ =>
    follows_symbol.bind fun _ => follows_gap.bind fun _ => follows_name.bind fun _ =>
    follows_gap.bind fun _ => follows_symbol.bind fun _ => follows_gap.bind fun _ =>
    follows_direction.bind fun _ => .pure _).rule .transition

theorem follows_stateRow : Follows (do emptyLines; let s ← state; lineEnd; return s)
    (inOrder [Phrase.emptyLines, Phrase.state, Phrase.lineEnd]) :=
  follows_emptyLines.bind fun _ => follows_state.bind fun _ => follows_lineEnd.bind fun _ => .pure _

theorem follows_transitionRow : Follows (do lineEnd; emptyLines; transition)
    (inOrder [Phrase.lineEnd, Phrase.emptyLines, Phrase.transition]) :=
  follows_lineEnd.bind fun _ => follows_emptyLines.bind fun _ => follows_transition.last

theorem follows_states : Follows (Matcher.many do emptyLines; let s ← state; lineEnd; return s)
    Phrase.states :=
  follows_stateRow.many (follows_stateRow.length_rest_lt takes_stateRow StateRow.length_rest_lt)

theorem follows_transitions : Follows (Matcher.many do lineEnd; emptyLines; transition)
    Phrase.transitions :=
  follows_transitionRow.many
    (follows_transitionRow.length_rest_lt takes_transitionRow TransitionRow.length_rest_lt)

/-- The matcher of whole descriptions follows the rule of the format. -/
theorem follows_program : Follows program Phrase.program :=
  (follows_emptyLines.bind fun _ => follows_header.bind fun _ => follows_lineEnd.bind fun _ =>
    follows_states.bind fun _ => follows_emptyLines.bind fun _ => follows_alphabet.bind fun _ =>
    follows_transitions.bind fun _ => (Follows.goTo Cursor.skipSpace).bind fun _ =>
    follows_endOfText.bind fun _ => .pure _).rule .program

end Grammar

theorem Derives.unique {text : List Char} {xs ys : List Mark} (hx : Derives text xs)
    (hy : Derives text ys) : xs = ys := by
  obtain ⟨d, hd⟩ := hx
  obtain ⟨e, he⟩ := hy
  exact (Grammar.follows_program.unique hd he).1

/-- A text has a draft just if it has a derivation. -/
theorem exists_draft_iff {text : List Char} :
    (∃ x, draft text = .ok x) ↔ ∃ ms, Derives text ms := by
  constructor
  · rintro ⟨x, hx⟩
    obtain ⟨d, hd⟩ := draft_eq_ok_iff.mp hx
    obtain ⟨ms, hms⟩ := (Grammar.follows_program.exists_iff Grammar.takes_program).mp ⟨x, hd⟩
    exact ⟨ms, d, hms⟩
  · rintro ⟨ms, d, hd⟩
    obtain ⟨x, hx⟩ := (Grammar.follows_program.exists_iff Grammar.takes_program).mpr ⟨ms, hd⟩
    exact ⟨x, draft_eq_ok_iff.mpr ⟨d, hx⟩⟩

end SingleTape.Description
