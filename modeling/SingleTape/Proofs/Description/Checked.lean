import SingleTape.Description.Violation
import SingleTape.Proofs.Attempt

/-!
# What a checked description is like

A description passes the check just if it keeps to all the rules, whatever the order in which they
are looked at.
-/

namespace SingleTape.Description

structure Checked (d : Description) (blank : Symbol) : Prop where
  stateCount : d.states.length = d.declaredStates
  states : d.states ≠ []
  nodup : d.stateNames.Nodup
  accept : (d.marked .accept).length = 1
  reject : (d.marked .reject).length = 1
  alphabetSize : d.alphabet.length = d.declaredAlphabet
  declared : ∀ t ∈ d.transitions, t.state ∈ d.stateNames ∧ t.next ∈ d.stateNames
  known : ∀ t ∈ d.transitions, t.read ∈ blank :: d.alphabet ∧ t.write ∈ blank :: d.alphabet

/-- Nothing recurs exactly when no name is listed twice, and none that was seen before. -/
theorem recurring_eq_nil_iff {seen l : List String} :
    recurring seen l = [] ↔ l.Nodup ∧ ∀ a ∈ l, a ∉ seen := by
  -- The induction is on the list, with all that was seen before it.
  induction l generalizing seen with
  | nil => simp [recurring]
  | cons a l ih =>
    unfold recurring
    by_cases ha : a ∈ seen
    · simp [ha]
    · rw [if_neg ha, ih, List.nodup_cons]
      constructor
      · rintro ⟨hl, hseen⟩
        refine ⟨⟨fun hmem => hseen a hmem List.mem_cons_self, hl⟩, ?_⟩
        intro b hb
        obtain rfl | hb := List.mem_cons.mp hb
        · exact ha
        · exact fun hmem => hseen b hb (List.mem_cons_of_mem a hmem)
      · rintro ⟨⟨hal, hl⟩, hseen⟩
        refine ⟨hl, fun b hb hmem => ?_⟩
        obtain rfl | hmem := List.mem_cons.mp hmem
        · exact hal hb
        · exact hseen b (List.mem_cons_of_mem a hb) hmem

theorem eraseDups_eq_nil_iff {l : List String} : l.eraseDups = [] ↔ l = [] := by
  cases l with
  | nil => simp
  | cons a l => simp [List.eraseDups_cons]

theorem repeatedNames_eq_nil_iff {d : Description} :
    d.repeatedNames = [] ↔ d.stateNames.Nodup := by
  rw [repeatedNames, eraseDups_eq_nil_iff, recurring_eq_nil_iff]
  simp

/-- Of the pairs that the transition lines give, none has a part that is not known. -/
theorem undefined_eq_nil_iff {ts : List TransitionLine} {f g : TransitionLine → String}
    {known : List String} :
    ((ts.flatMap fun t => [f t, g t]).filter (· ∉ known)).eraseDups = [] ↔
      ∀ t ∈ ts, f t ∈ known ∧ g t ∈ known := by
  rw [eraseDups_eq_nil_iff, List.filter_eq_nil_iff]
  constructor
  · intro h t ht
    constructor
    · simpa using h (f t) (List.mem_flatMap.mpr ⟨t, ht, by simp⟩)
    · simpa using h (g t) (List.mem_flatMap.mpr ⟨t, ht, by simp⟩)
  · intro h a ha
    obtain ⟨t, ht, hmem⟩ := List.mem_flatMap.mp ha
    have ha : a = f t ∨ a = g t := by simpa using hmem
    obtain rfl | rfl := ha
    · simpa using (h t ht).1
    · simpa using (h t ht).2

/-- A check in the middle succeeds when its own condition is clear and the rest succeeds. -/
theorem ite_throw_bind_eq_ok {c : Prop} [Decidable c] {v : Violation}
    {f : Unit → Except Violation Unit} :
    (if c then (throw v >>= f) else f ()) = .ok () ↔ ¬ c ∧ f () = .ok () := by
  by_cases hc : c
  · rw [if_pos hc]
    constructor
    · intro h
      cases h
    · intro h
      exact absurd hc h.1
  · rw [if_neg hc]
    simp [hc]

/-- A check at the end succeeds when its condition is clear. -/
theorem ite_throw_eq_ok {c : Prop} [Decidable c] {v : Violation} :
    (if c then throw v else pure () : Except Violation Unit) = .ok () ↔ ¬ c := by
  by_cases hc : c
  · rw [if_pos hc]
    constructor
    · intro h
      cases h
    · intro h
      exact absurd hc h
  · rw [if_neg hc]
    exact iff_of_true rfl hc

/-- The check succeeds just if every rule is kept. -/
theorem check_eq_ok_iff {d : Description} {blank : Symbol} :
    d.check blank = .ok () ↔ d.Checked blank := by
  unfold check
  dsimp only
  simp only [ite_throw_bind_eq_ok, ite_throw_eq_ok, Decidable.not_not, repeatedNames_eq_nil_iff,
    List.isEmpty_iff]
  rw [undefinedStates, undefined_eq_nil_iff, undefinedSymbols, undefined_eq_nil_iff]
  constructor
  · rintro ⟨h1, h2, h3, h4, h5, h6, h7, h8⟩
    exact ⟨h1, h2, h3, h4, h5, h6, h7, h8⟩
  · rintro ⟨h1, h2, h3, h4, h5, h6, h7, h8⟩
    exact ⟨h1, h2, h3, h4, h5, h6, h7, h8⟩

end SingleTape.Description
