import SingleTape.Description.Matcher

/-!
# What matchers take off

The record of failures never decides what a matcher does, so a matcher stands for a relation
between the place before, what was read, and the place after. The relation of a compound matcher
is made from those of its parts; that of a repetition says where the repetition stops.
-/

namespace SingleTape.Description

/-- Reads one thing after the other, as long as there is one. -/
inductive Repeats {α : Type} (P : Cursor → α → Cursor → Prop) :
    Cursor → List α → Cursor → Prop where
  | stop {c : Cursor} : (∀ x d, ¬ P c x d) → Repeats P c [] c
  | more {c d e : Cursor} {x : α} {xs : List α} :
      P c x d → Repeats P d xs e → Repeats P c (x :: xs) e

namespace Matcher

/-! ## What combined matchers do, by what their parts do -/

variable {α β : Type} {m : Matcher α} {c d : Cursor} {a a' : Attempts} {x : α}

theorem bind_of_some {f : α → Matcher β} (h : m c a = (some (x, d), a')) :
    (m >>= f) c a = f x d a' := by
  simp only [Bind.bind, h]

theorem bind_of_none {f : α → Matcher β} (h : m c a = (none, a')) :
    (m >>= f) c a = (none, a') := by
  simp only [Bind.bind, h]

theorem optional_of_some (h : m c a = (some (x, d), a')) :
    optional m c a = (some (some x, d), a') := by
  simp only [optional, h]

theorem optional_of_none (h : m c a = (none, a')) : optional m c a = (some (none, c), a') := by
  simp only [optional, h]

theorem manyUpTo_of_some {n : Nat} {xs : Array α} (h : m c a = (some (x, d), a')) :
    manyUpTo m (n + 1) xs c a = manyUpTo m n (xs.push x) d a' := by
  simp only [manyUpTo, h]

theorem manyUpTo_of_none {n : Nat} {xs : Array α} (h : m c a = (none, a')) :
    manyUpTo m (n + 1) xs c a = (some (xs, c), a') := by
  simp only [manyUpTo, h]

/-- Putting a rule on record does not change what it matches. -/
theorem fst_rule (r : Rule) : (rule r m c a).1 = (m c a).1 := by
  unfold rule
  split
  case h_1 x after h => rw [h]
  case h_2 after h => rw [h]

end Matcher

/-- The matcher reads what the relation says, whatever has failed before. -/
def Takes {α : Type} (m : Matcher α) (P : Cursor → α → Cursor → Prop) : Prop :=
  ∀ c a x d, (m c a).1 = some (x, d) ↔ P c x d

namespace Takes

open Matcher

variable {α β : Type} {m : Matcher α} {P Q : Cursor → α → Cursor → Prop}

theorem congr (hm : Takes m P) (h : ∀ c x d, P c x d ↔ Q c x d) : Takes m Q := by
  intro c a x d
  rw [hm, h]

/-- A matcher reads something just if there is something to read. -/
theorem cases (hm : Takes m P) (c : Cursor) (a : Attempts) :
    (∃ x d a', m c a = (some (x, d), a') ∧ P c x d) ∨
      (∃ a', m c a = (none, a')) ∧ ∀ x d, ¬ P c x d := by
  have hc := hm c a
  cases h : m c a with
  | mk r a' =>
    rw [h] at hc
    cases r with
    | some y =>
      obtain ⟨x, d⟩ := y
      exact .inl ⟨x, d, a', rfl, (hc x d).mp rfl⟩
    | none =>
      refine .inr ⟨⟨a', rfl⟩, fun x d hP => ?_⟩
      cases (hc x d).mpr hP

/-- What is read, and where that leads, is determined by the place. -/
theorem unique (hm : Takes m P) {c d e : Cursor} {x y : α} (h1 : P c x d) (h2 : P c y e) :
    x = y ∧ d = e := by
  have hx := (hm c {} x d).mpr h1
  have hy := (hm c {} y e).mpr h2
  rw [hx] at hy
  cases hy
  exact ⟨rfl, rfl⟩

theorem pure (x : α) : Takes (Pure.pure x) fun c y d => x = y ∧ c = d := by
  intro c a y d
  show some (x, c) = some (y, d) ↔ _
  simp

/-- One matcher after the other takes what both of them take. -/
theorem bind {f : α → Matcher β} {R : α → Cursor → β → Cursor → Prop} (hm : Takes m P)
    (hf : ∀ x, Takes (f x) (R x)) : Takes (m >>= f) fun c y e => ∃ x d, P c x d ∧ R x d y e := by
  intro c a y e
  obtain ⟨x, d, a', h, hP⟩ | ⟨⟨a', h⟩, hno⟩ := hm.cases c a
  · rw [bind_of_some h, hf x]
    constructor
    · intro hR
      exact ⟨x, d, hP, hR⟩
    · rintro ⟨x', d', hP', hR⟩
      obtain ⟨rfl, rfl⟩ := hm.unique hP hP'
      exact hR
  · rw [bind_of_none h]
    constructor
    · intro h
      cases h
    · rintro ⟨x, d, hP, -⟩
      exact absurd hP (hno x d)

theorem take (f : Cursor → Option Cursor) : Takes (take f) fun c _ d => f c = some d := by
  intro c a x d
  show (f c).map (fun c => ((), c)) = some ((), d) ↔ _
  simp

theorem goTo (f : Cursor → Cursor) : Takes (goTo f) fun c _ d => f c = d := by
  intro c a x d
  show some ((), f c) = some ((), d) ↔ _
  simp

theorem line : Takes line fun c n d => c.line = n ∧ c = d := by
  intro c a n d
  show some (c.line, c) = some (n, d) ↔ _
  simp

theorem notAhead (f : Cursor → Option Cursor) :
    Takes (notAhead f) fun c _ d => f c = none ∧ c = d := by
  intro c a x d
  show (if (f c).isNone then some ((), c) else none) = some ((), d) ↔ _
  simp

theorem optional (hm : Takes m P) : Takes (optional m) fun c o d =>
    (∃ x, o = some x ∧ P c x d) ∨ o = none ∧ c = d ∧ ∀ x e, ¬ P c x e := by
  intro c a o d
  obtain ⟨x, e, a', h, hP⟩ | ⟨⟨a', h⟩, hno⟩ := hm.cases c a
  · rw [optional_of_some h]
    constructor
    · intro h
      cases h
      exact .inl ⟨x, rfl, hP⟩
    · rintro (⟨y, rfl, hy⟩ | ⟨-, -, hno⟩)
      · obtain ⟨rfl, rfl⟩ := hm.unique hP hy
        rfl
      · exact absurd hP (hno x e)
  · rw [optional_of_none h]
    constructor
    · intro h
      cases h
      exact .inr ⟨rfl, rfl, hno⟩
    · rintro (⟨y, -, hy⟩ | ⟨rfl, rfl, -⟩)
      · exact absurd hy (hno y d)
      · rfl

theorem rule (r : Rule) (hm : Takes m P) : Takes (rule r m) P := by
  intro c a x d
  rw [fst_rule, hm]

/-- With a try for every character left and one more, a repetition never runs out of tries. -/
theorem manyUpTo (hm : Takes m P) (hP : ∀ {c x d}, P c x d → d.rest.length < c.rest.length)
    (n : Nat) (xs : Array α) {c : Cursor} (hn : c.rest.length < n) (a : Attempts) (ys : Array α)
    (d : Cursor) : (manyUpTo m n xs c a).1 = some (ys, d) ↔
      ∃ zs, ys.toList = xs.toList ++ zs ∧ Repeats P c zs d := by
  -- The induction is on the tries; each match pays for one with the characters that it takes off.
  induction n generalizing xs c a with
  | zero => omega
  | succ n ih =>
    obtain ⟨x, e, a', h, hx⟩ | ⟨⟨a', h⟩, hno⟩ := hm.cases c a
    · have hlt := hP hx
      rw [manyUpTo_of_some h, ih (xs.push x) (by omega) a', Array.toList_push]
      constructor
      · rintro ⟨zs, hys, hr⟩
        exact ⟨x :: zs, by simp [hys], .more hx hr⟩
      · rintro ⟨zs, hys, hr⟩
        cases hr with
        | stop hno => exact absurd hx (hno x e)
        | more hy hr =>
          obtain ⟨rfl, rfl⟩ := hm.unique hx hy
          exact ⟨_, by simp [hys], hr⟩
    · rw [manyUpTo_of_none h]
      constructor
      · intro h
        cases h
        exact ⟨[], by simp, .stop hno⟩
      · rintro ⟨zs, hys, hr⟩
        cases hr with
        | stop _ =>
          have hxs : xs = ys := Array.toList_inj.mp (by simpa using hys.symm)
          rw [hxs]
        | more hy _ => exact absurd hy (hno _ _)

/-- A repetition takes its part as long as there is one to take. -/
theorem many (hm : Takes m P) (hP : ∀ {c x d}, P c x d → d.rest.length < c.rest.length) :
    Takes (many m) (Repeats P) := by
  intro c a xs d
  have hup := hm.manyUpTo hP (c.rest.length + 1) #[] (Nat.lt_succ_self _) a
  have hall : Takes (fun _ _ => Matcher.manyUpTo m (c.rest.length + 1) #[] c a)
      fun _ ys d => Repeats P c ys.toList d := by
    intro _ _ ys d
    simp [hup]
  have hmap := hall.bind fun ys => Takes.pure ys.toList
  rw [show (Matcher.many m c a).1 = some (xs, d) ↔ _ from hmap c a xs d]
  constructor
  · rintro ⟨ys, e, hr, rfl, rfl⟩
    exact hr
  · intro hr
    exact ⟨xs.toArray, d, by simpa using hr, by simp, rfl⟩

end Takes

end SingleTape.Description
