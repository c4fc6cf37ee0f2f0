import Mathlib.Data.List.Induction
import Mathlib.Data.List.Nodup
import SingleTape.Proofs.Description.Checked

/-!
# Which rule is told to be broken

What is asked of a description, in the order in which it is looked at. A description that does not
do all of it is told the first thing that it fails to do, with everything at fault: each name once,
in the order in which the names came to be at fault when the lines are read from the first to the
last.
-/

namespace SingleTape.Description

inductive Requirement where
  | stateCount
  | someState
  | distinctNames
  | oneMarked (m : Marker)
  | alphabetSize
  | declaredStates
  | knownSymbols
deriving DecidableEq

namespace Requirement

def all : List Requirement :=
  [stateCount, someState, distinctNames, oneMarked .accept, oneMarked .reject, alphabetSize,
    declaredStates, knownSymbols]

def earlier (r : Requirement) : List Requirement := all.takeWhile (· ≠ r)

theorem mem_all (r : Requirement) : r ∈ all := by
  cases r with
  | oneMarked m => cases m <;> decide
  | _ => decide

theorem exists_later (r : Requirement) : ∃ later, all = r.earlier ++ r :: later := by
  cases r with
  | oneMarked m => cases m <;> exact ⟨_, rfl⟩
  | _ => exact ⟨_, rfl⟩

end Requirement

def Keeps (d : Description) (blank : Symbol) : Requirement → Prop
  | .stateCount => d.states.length = d.declaredStates
  | .someState => d.states ≠ []
  | .distinctNames => d.stateNames.Nodup
  | .oneMarked m => d.states.countP (·.marker = some m) = 1
  | .alphabetSize => d.alphabet.length = d.declaredAlphabet
  | .declaredStates => ∀ t ∈ d.transitions, t.state ∈ d.stateNames ∧ t.next ∈ d.stateNames
  | .knownSymbols =>
    ∀ t ∈ d.transitions, t.read ∈ blank :: d.alphabet ∧ t.write ∈ blank :: d.alphabet

instance (d : Description) (blank : Symbol) : DecidablePred (d.Keeps blank)
  | .stateCount => inferInstanceAs (Decidable (_ = _))
  | .someState => inferInstanceAs (Decidable (_ ≠ _))
  | .distinctNames => inferInstanceAs (Decidable (List.Nodup _))
  | .oneMarked _ => inferInstanceAs (Decidable (_ = _))
  | .alphabetSize => inferInstanceAs (Decidable (_ = _))
  | .declaredStates => inferInstanceAs (Decidable (∀ _ ∈ _, _))
  | .knownSymbols => inferInstanceAs (Decidable (∀ _ ∈ _, _))

def FirstBroken (d : Description) (blank : Symbol) (r : Requirement) : Prop :=
  (∀ r' ∈ r.earlier, d.Keeps blank r') ∧ ¬ d.Keeps blank r

def Violation.requirement : Violation → Requirement
  | stateCount .. => .stateCount
  | noStates => .someState
  | repeatedStates _ => .distinctNames
  | acceptStates _ => .oneMarked .accept
  | rejectStates _ => .oneMarked .reject
  | alphabetSize .. => .alphabetSize
  | undefinedStates _ => .declaredStates
  | undefinedSymbols _ => .knownSymbols

/-- Reading the list from its beginning, `a` has turned up `k` times before `b` has. -/
def Sooner (k : Nat) (l : List String) (a b : String) : Prop :=
  ∃ u, u <+: l ∧ k ≤ u.count a ∧ u.count b < k

/-- The names are those with the property that turn up at least `k` times in the list, once each,
and in the order in which they have turned up `k` times. -/
structure Lists (names : List String) (k : Nat) (l : List String) (p : String → Prop) : Prop where
  nodup : names.Nodup
  mem : ∀ a, a ∈ names ↔ p a ∧ k ≤ l.count a
  ordered : names.Pairwise (Sooner k l)

def IsMarked (d : Description) (m : Marker) (q : String) : Prop :=
  ∃ s ∈ d.states, s.name = q ∧ s.marker = some m

/-- The violation carries the numbers that differ, or all that is at fault. -/
def Explains (d : Description) (blank : Symbol) : Violation → Prop
  | .stateCount declared found => declared = d.declaredStates ∧ found = d.states.length
  | .noStates => True
  | .repeatedStates names => Lists names 2 d.stateNames fun _ => True
  | .acceptStates names => Lists names 1 d.stateNames (d.IsMarked .accept)
  | .rejectStates names => Lists names 1 d.stateNames (d.IsMarked .reject)
  | .alphabetSize declared found => declared = d.declaredAlphabet ∧ found = d.alphabet.length
  | .undefinedStates names =>
    Lists names 1 (d.transitions.flatMap fun t => [t.state, t.next]) (· ∉ d.stateNames)
  | .undefinedSymbols symbols =>
    Lists symbols 1 (d.transitions.flatMap fun t => [t.read, t.write]) (· ∉ blank :: d.alphabet)

/-! ## Lists of what is at fault -/

section Lists

variable {names names' l : List String} {k : Nat} {p : String → Prop} {a b : String}

theorem Sooner.append (h : Sooner k l a b) (m : List String) : Sooner k (l ++ m) a b := by
  obtain ⟨u, hu, ha, hb⟩ := h
  exact ⟨u, hu.trans (List.prefix_append l m), ha, hb⟩

/-- Of two names only one can have come up sooner. -/
theorem Sooner.asymm (h : Sooner k l a b) : ¬ Sooner k l b a := by
  rintro ⟨v, hv, hb, ha⟩
  obtain ⟨u, hu, ha', hb'⟩ := h
  rcases List.prefix_or_prefix_of_prefix hu hv with huv | hvu
  · have := huv.sublist.count_le a
    omega
  · have := hvu.sublist.count_le b
    omega

/-- Members, order and the lack of repeats leave no choice. -/
theorem Lists.unique (h : Lists names k l p) (h' : Lists names' k l p) : names = names' := by
  have hperm : names.Perm names' :=
    (List.perm_ext_iff_of_nodup h.nodup h'.nodup).mpr fun a => (h.mem a).trans (h'.mem a).symm
  exact hperm.eq_of_pairwise (fun a b _ _ hab hba => absurd hba hab.asymm) h.ordered h'.ordered

theorem lists_nil (hk : 0 < k) (p : String → Prop) : Lists [] k [] p where
  nodup := .nil
  mem a := by
    rw [List.count_nil]
    exact iff_of_false List.not_mem_nil fun h => absurd h.2 (by omega)
  ordered := .nil

/-- One more member of the list, which comes to be at fault by it. -/
theorem Lists.reach (h : Lists names k l p) (hp : p a) (hcount : l.count a + 1 = k) :
    Lists (names ++ [a]) k (l ++ [a]) p where
  nodup := by
    have hnew : a ∉ names := fun hmem => by
      have := ((h.mem a).mp hmem).2
      omega
    exact List.nodup_append.mpr ⟨h.nodup, List.nodup_singleton a, by
      rintro x hx y hy rfl
      exact hnew (List.mem_singleton.mp hy ▸ hx)⟩
  -- Only the count of the new name has changed.
  mem b := by
    rw [List.mem_append, List.mem_singleton, h.mem, List.count_append, List.count_singleton]
    by_cases hb : a = b
    · subst hb
      simp only [or_true, beq_self_eq_true, if_true, true_iff]
      exact ⟨hp, by omega⟩
    · simp only [Ne.symm hb, or_false, beq_eq_false_iff_ne.mpr hb, Bool.false_eq_true, if_false,
        Nat.add_zero]
  ordered := by
    rw [List.pairwise_append]
    refine ⟨h.ordered.imp (Sooner.append · [a]), List.pairwise_singleton _ a, ?_⟩
    intro b hb c hc
    obtain rfl := List.mem_singleton.mp hc
    exact ⟨l, List.prefix_append l [c], ((h.mem b).mp hb).2, by omega⟩

/-- One more member that changes nothing: it is not at fault, or is so already, or is not yet. -/
theorem Lists.pass (h : Lists names k l p) (ha : ¬ (p a ∧ l.count a + 1 = k)) :
    Lists names k (l ++ [a]) p where
  nodup := h.nodup
  mem b := by
    rw [h.mem, List.count_append, List.count_singleton]
    by_cases hb : a = b
    · subst hb
      simp only [beq_self_eq_true, if_true]
      constructor
      · rintro ⟨hp, hk⟩
        exact ⟨hp, by omega⟩
      · rintro ⟨hp, hk⟩
        exact ⟨hp, by
          by_contra hlt
          exact ha ⟨hp, by omega⟩⟩
    · simp only [beq_eq_false_iff_ne.mpr hb, Bool.false_eq_true, if_false, Nat.add_zero]
  ordered := h.ordered.imp (Sooner.append · [a])

theorem eraseDups_append_singleton (l : List String) (a : String) :
    (l ++ [a]).eraseDups = if a ∈ l then l.eraseDups else l.eraseDups ++ [a] := by
  rw [List.eraseDups_append]
  by_cases ha : a ∈ l
  · simp [ha, List.removeAll]
  · simp [ha, List.removeAll, List.eraseDups_cons]

theorem recurring_append_singleton (seen l : List String) (a : String) :
    recurring seen (l ++ [a]) =
      if a ∈ seen ∨ a ∈ l then recurring seen l ++ [a] else recurring seen l := by
  induction l generalizing seen with
  | nil => simp [recurring]
  | cons b l ih =>
    rw [List.cons_append, recurring, recurring]
    by_cases hb : b ∈ seen
    · rw [if_pos hb, if_pos hb, ih]
      by_cases hab : a = b
      · subst hab
        simp [hb]
      · simp only [List.mem_cons, hab, false_or]
        split <;> rfl
    · rw [if_neg hb, if_neg hb, ih]
      simp only [List.mem_cons]
      congr 1
      exact propext (by tauto)

/-- Without repeats, the members with a property are listed in the order of their first places. -/
theorem lists_eraseDups_filter (known l : List String) :
    Lists (l.filter (· ∉ known)).eraseDups 1 l (· ∉ known) := by
  -- The induction takes the members one by one, as they are read.
  induction l using List.reverseRecOn with
  | nil => exact lists_nil Nat.one_pos _
  | append_singleton l a ih =>
    rw [List.filter_append]
    by_cases ha : a ∈ known
    · rw [List.filter_cons_of_neg (by simpa using ha), List.filter_nil, List.append_nil]
      exact ih.pass fun h => h.1 ha
    · rw [List.filter_cons_of_pos (by simpa using ha), List.filter_nil,
        eraseDups_append_singleton]
      by_cases hl : a ∈ l
      · rw [if_pos (List.mem_filter.mpr ⟨hl, by simpa using ha⟩)]
        have := List.count_pos_iff.mpr hl
        exact ih.pass fun h => by omega
      · rw [if_neg fun h => hl (List.mem_filter.mp h).1]
        exact ih.reach ha (by rw [List.count_eq_zero_of_not_mem hl])

/-- The recurring names are those listed twice, in the order of their second mention. -/
theorem lists_recurring (l : List String) :
    Lists (recurring [] l).eraseDups 2 l fun _ => True := by
  -- The induction is on the list from its end: a name at the end is new, comes up the second time,
  -- or came up twice before.
  induction l using List.reverseRecOn with
  | nil => exact lists_nil Nat.two_pos _
  | append_singleton l a ih =>
    have hmem : a ∈ recurring [] l ↔ 2 ≤ l.count a := by
      rw [← List.mem_eraseDups, ih.mem, true_and]
    rw [recurring_append_singleton]
    by_cases hl : a ∈ l
    · rw [if_pos (.inr hl), eraseDups_append_singleton]
      have hpos := List.count_pos_iff.mpr hl
      by_cases htwice : a ∈ recurring [] l
      · rw [if_pos htwice]
        have := hmem.mp htwice
        exact ih.pass fun h => by omega
      · rw [if_neg htwice]
        have := mt hmem.mpr htwice
        exact ih.reach trivial (by omega)
    · rw [if_neg (by simpa using hl)]
      have := List.count_eq_zero_of_not_mem hl
      exact ih.pass fun h => by omega

/-- The states with a mark, when no name is given twice. -/
theorem lists_filter_name {states : List StateLine} {m : Marker}
    (hn : (states.map (·.name)).Nodup) (hp : ∀ s ∈ states, p s.name ↔ s.marker = some m) :
    Lists ((states.filter (·.marker = some m)).map (·.name)) 1 (states.map (·.name)) p := by
  induction states using List.reverseRecOn with
  | nil => exact lists_nil Nat.one_pos _
  | append_singleton states s ih =>
    rw [List.map_append, List.nodup_append] at hn
    obtain ⟨hn, -, hnew⟩ := hn
    have ih := ih hn fun s' hs' => hp s' (List.mem_append_left _ hs')
    have hs := hp s (List.mem_append_right _ (List.mem_singleton_self s))
    have hcount : (states.map (·.name)).count s.name = 0 :=
      List.count_eq_zero_of_not_mem fun h => hnew _ h _ (List.mem_singleton_self _) rfl
    rw [List.filter_append, List.map_append, List.map_append]
    by_cases hmark : s.marker = some m
    · rw [List.filter_cons_of_pos (by simpa using hmark)]
      exact ih.reach (hs.mpr hmark) (by rw [hcount])
    · rw [List.filter_cons_of_neg (by simpa using hmark), List.filter_nil, List.map_nil,
        List.append_nil]
      exact ih.pass fun h => hmark (hs.mp h.1)

end Lists

/-! ## What the check tells -/

section Check

variable {d : Description} {blank : Symbol}

def finding (d : Description) (blank : Symbol) : Requirement → Violation
  | .stateCount => .stateCount d.declaredStates d.states.length
  | .someState => .noStates
  | .distinctNames => .repeatedStates d.repeatedNames
  | .oneMarked .accept => .acceptStates (d.marked .accept)
  | .oneMarked .reject => .rejectStates (d.marked .reject)
  | .alphabetSize => .alphabetSize d.declaredAlphabet d.alphabet.length
  | .declaredStates => .undefinedStates d.undefinedStates
  | .knownSymbols => .undefinedSymbols (d.undefinedSymbols blank)

theorem requirement_finding (r : Requirement) : (d.finding blank r).requirement = r := by
  cases r with
  | oneMarked m => cases m <;> rfl
  | _ => rfl

/-- The finding for the first of these that the description fails to do. -/
def firstFinding (d : Description) (blank : Symbol) (rs : List Requirement) :
    Except Violation Unit :=
  match rs.find? fun r => ¬ d.Keeps blank r with
  | some r => .error (d.finding blank r)
  | none => .ok ()

/-- The requirement that is looked at first is told of first. -/
theorem firstFinding_cons (r : Requirement) (rs : List Requirement) :
    d.firstFinding blank (r :: rs) =
      if d.Keeps blank r then d.firstFinding blank rs else .error (d.finding blank r) := by
  unfold firstFinding
  by_cases h : d.Keeps blank r
  · rw [if_pos h, List.find?_cons_of_neg (by simpa using h)]
  · rw [if_neg h, List.find?_cons_of_pos (by simpa using h)]

theorem length_marked_eq_one_iff {m : Marker} :
    (d.marked m).length = 1 ↔ d.Keeps blank (.oneMarked m) := by
  rw [marked, List.length_map, ← List.countP_eq_length_filter]
  rfl

theorem undefinedStates_eq_nil_iff :
    d.undefinedStates = [] ↔ d.Keeps blank .declaredStates := undefined_eq_nil_iff

theorem undefinedSymbols_eq_nil_iff :
    d.undefinedSymbols blank = [] ↔ d.Keeps blank .knownSymbols := undefined_eq_nil_iff

/-- A check in the middle: its violation if it fails, or else what the rest gives. -/
theorem ite_throw_bind {c : Prop} [Decidable c] {v : Violation} {f : Unit → Except Violation Unit} :
    (if c then (throw v >>= f) else f ()) = if ¬ c then f () else .error v := by
  by_cases hc : c
  · rw [if_pos hc, if_neg (not_not_intro hc)]
    rfl
  · rw [if_neg hc, if_pos hc]

/-- The check goes through the requirements in order. -/
theorem check_eq_firstFinding : d.check blank = d.firstFinding blank Requirement.all := by
  unfold check
  dsimp only
  simp only [ite_throw_bind, Decidable.not_not, repeatedNames_eq_nil_iff, List.isEmpty_iff]
  rw [Requirement.all]
  simp only [firstFinding_cons]
  refine if_congr Iff.rfl ?_ rfl
  refine if_congr Iff.rfl ?_ rfl
  refine if_congr Iff.rfl ?_ rfl
  refine if_congr length_marked_eq_one_iff ?_ rfl
  refine if_congr length_marked_eq_one_iff ?_ rfl
  refine if_congr Iff.rfl ?_ rfl
  refine if_congr undefinedStates_eq_nil_iff ?_ rfl
  rw [ite_not]
  exact if_congr undefinedSymbols_eq_nil_iff rfl rfl

/-- The first broken requirement is the one that a search in order comes to. -/
theorem find?_eq_some_iff_firstBroken {r : Requirement} :
    (Requirement.all.find? fun r => ¬ d.Keeps blank r) = some r ↔ d.FirstBroken blank r := by
  rw [List.find?_eq_some_iff_append, decide_eq_true_iff]
  constructor
  · rintro ⟨hr, before, later, hall, hbefore⟩
    have hbefore : ∀ r' ∈ before, d.Keeps blank r' := by simpa using hbefore
    have hearlier : r.earlier = before := by
      have hne : ∀ r' ∈ before, decide (r' ≠ r) = true := fun r' hr' =>
        decide_eq_true fun heq => hr (heq ▸ hbefore r' hr')
      rw [Requirement.earlier, hall, List.takeWhile_append_of_pos hne,
        List.takeWhile_cons_of_neg (by simp), List.append_nil]
    exact ⟨hearlier ▸ hbefore, hr⟩
  · rintro ⟨hbefore, hr⟩
    obtain ⟨later, hall⟩ := r.exists_later
    exact ⟨hr, r.earlier, later, hall, by simpa using hbefore⟩

theorem FirstBroken.unique {r r' : Requirement} (h : d.FirstBroken blank r)
    (h' : d.FirstBroken blank r') : r = r' :=
  Option.some.inj <|
    (find?_eq_some_iff_firstBroken.mpr h).symm.trans (find?_eq_some_iff_firstBroken.mpr h')

/-- The check succeeds exactly when all requirements are kept. -/
theorem check_eq_ok_iff_keeps : d.check blank = .ok () ↔ ∀ r, d.Keeps blank r := by
  rw [check_eq_firstFinding, firstFinding]
  cases hfind : Requirement.all.find? fun r => ¬ d.Keeps blank r with
  | none =>
    refine iff_of_true rfl fun r => ?_
    simpa using List.find?_eq_none.mp hfind r r.mem_all
  | some r => exact iff_of_false nofun fun h => (find?_eq_some_iff_firstBroken.mp hfind).2 (h r)

theorem firstBroken_of_check_eq_error {v : Violation} (h : d.check blank = .error v) :
    ∃ r, d.FirstBroken blank r ∧ v = d.finding blank r := by
  rw [check_eq_firstFinding, firstFinding] at h
  split at h
  · rename_i r hfind
    cases h
    exact ⟨r, find?_eq_some_iff_firstBroken.mp hfind, rfl⟩
  · cases h

/-- With distinct names a name is marked just if its line is. -/
theorem lists_marked (hn : d.stateNames.Nodup) (m : Marker) :
    Lists (d.marked m) 1 d.stateNames (d.IsMarked m) := by
  refine lists_filter_name hn fun s hs => ⟨?_, fun hmark => ⟨s, hs, rfl, hmark⟩⟩
  rintro ⟨s', hs', hname, hmark⟩
  obtain rfl := List.inj_on_of_nodup_map hn hs' hs hname
  exact hmark

/-- That names are distinct is looked at before the markers are. -/
theorem FirstBroken.nodup {m : Marker} (h : d.FirstBroken blank (.oneMarked m)) :
    d.stateNames.Nodup := by
  have hearlier : Requirement.distinctNames ∈ (Requirement.oneMarked m).earlier := by
    cases m <;> decide
  exact h.1 _ hearlier

/-- What is told of the first broken requirement is all that is wrong about it. -/
theorem FirstBroken.explains {r : Requirement} (h : d.FirstBroken blank r) :
    d.Explains blank (d.finding blank r) := by
  cases r with
  | stateCount => exact ⟨rfl, rfl⟩
  | someState => trivial
  | distinctNames => exact lists_recurring d.stateNames
  | oneMarked m =>
    cases m with
    | accept => exact lists_marked h.nodup .accept
    | reject => exact lists_marked h.nodup .reject
  | alphabetSize => exact ⟨rfl, rfl⟩
  | declaredStates => exact lists_eraseDups_filter d.stateNames _
  | knownSymbols => exact lists_eraseDups_filter (blank :: d.alphabet) _

/-- What is told of a requirement can be told in one way only. -/
theorem Explains.unique {v v' : Violation} (h : d.Explains blank v) (h' : d.Explains blank v')
    (heq : v.requirement = v'.requirement) : v = v' := by
  -- Each violation says in full what is wrong: two numbers, or all names in order.
  cases v with
  | stateCount declared found =>
    cases v' <;> cases heq
    rw [h.1, h.2, h'.1, h'.2]
  | noStates =>
    cases v' <;> cases heq
    rfl
  | repeatedStates names =>
    cases v' <;> cases heq
    rw [Lists.unique h h']
  | acceptStates names =>
    cases v' <;> cases heq
    rw [Lists.unique h h']
  | rejectStates names =>
    cases v' <;> cases heq
    rw [Lists.unique h h']
  | alphabetSize declared found =>
    cases v' <;> cases heq
    rw [h.1, h.2, h'.1, h'.2]
  | undefinedStates names =>
    cases v' <;> cases heq
    rw [Lists.unique h h']
  | undefinedSymbols symbols =>
    cases v' <;> cases heq
    rw [Lists.unique h h']

end Check

/-- A description passes the check just if it does all that is asked of it. Otherwise it is told the
first thing that it fails to do, with the numbers that differ or with everything at fault, once
each and in the order of appearance; and there is nothing else that it could be told. -/
theorem check_tells_first_broken (d : Description) (blank : Symbol) :
    (d.check blank = .ok () ↔ ∀ r, d.Keeps blank r) ∧
    ∀ v, d.check blank = .error v ↔ d.FirstBroken blank v.requirement ∧ d.Explains blank v := by
  refine ⟨check_eq_ok_iff_keeps, fun v => ⟨fun hv => ?_, fun ⟨hbroken, hexplains⟩ => ?_⟩⟩
  · obtain ⟨r, hbroken, rfl⟩ := firstBroken_of_check_eq_error hv
    rw [requirement_finding]
    exact ⟨hbroken, hbroken.explains⟩
  · cases hcheck : d.check blank with
    | ok u => exact absurd (check_eq_ok_iff_keeps.mp hcheck _) hbroken.2
    | error v' =>
      obtain ⟨r, hbroken', rfl⟩ := firstBroken_of_check_eq_error hcheck
      have hr : r = v.requirement := hbroken'.unique hbroken
      rw [hbroken'.explains.unique hexplains ((requirement_finding r).trans hr)]

-- The second `b` comes before the second `a`, although the first does not.
example : Lists ["b", "a"] 2 ["a", "b", "c", "b", "b", "a"] fun _ => True :=
  lists_recurring ["a", "b", "c", "b", "b", "a"]

end SingleTape.Description
