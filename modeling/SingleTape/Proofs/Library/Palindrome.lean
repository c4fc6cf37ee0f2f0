import Mathlib.Data.List.Induction
import Mathlib.Data.List.Palindrome
import Mathlib.Tactic.Ring
import SingleTape.Proofs.Library.Plan
import SingleTape.Proofs.Machine.Scanning

/-!
# Palindromes

The machine erases the first letter of a word, carries it over the others, and compares it with the
last, which it erases if they are the same. Then it goes back to what is left between the two. So
each round takes off both ends of a word, and whatever becomes of it, the number of steps is bounded
by a quadratic function of its length, which palindromes attain.
-/

namespace SingleTape.Palindrome

open Textbook (Rule Config)
open Textbook.Config
open Library (Over)

inductive Letter where
  | a
  | b
  | c
deriving DecidableEq

def Letter.char : Letter → Char
  | a => 'a'
  | b => 'b'
  | c => 'c'

def Letter.symbol (x : Letter) : Symbol := String.singleton x.char

def letters : List Letter := [.a, .b, .c]

/-- What the machine is doing: erasing the first letter, carrying it to the last one, comparing the
two, and going back. -/
inductive Phase where
  | start
  | carry (x : Letter)
  | compare (x : Letter)
  | back
  | accept
  | reject
deriving DecidableEq

def onLetters (f : Letter → Rule Phase) (empty : Rule Phase) : List (Symbol × Rule Phase) :=
  letters.map (fun x => (x.symbol, f x)) ++ [("_", empty)]

def plan : Plan Phase where
  phases := .start :: letters.map .carry ++ letters.map .compare ++ [.back, .accept, .reject]
  name
    | .start => "q0"
    | .carry x => "r" ++ x.symbol
    | .compare x => "c" ++ x.symbol
    | .back => "back"
    | .accept => "accept"
    | .reject => "reject"
  table
    | .start => onLetters (fun x => ⟨.carry x, "_", .right⟩) ⟨.accept, "_", .right⟩
    | .carry x => onLetters (fun y => ⟨.carry x, y.symbol, .right⟩) ⟨.compare x, "_", .left⟩
    | .compare x =>
      onLetters (fun y => if y = x then ⟨.back, "_", .left⟩ else ⟨.reject, y.symbol, .left⟩)
        ⟨.accept, "_", .left⟩
    | .back => onLetters (fun y => ⟨.back, y.symbol, .left⟩) ⟨.start, "_", .right⟩
    | .accept => []
    | .reject => []
  start := .start
  accept := .accept
  reject := .reject
  mem_phases q := by cases q <;> first | decide | (rename_i x; cases x <;> decide)
  accept_ne_reject := by decide
  table_accept := rfl
  table_reject := rfl

set_option maxRecDepth 4000 in
/-- The plan is what the built-in text says. -/
theorem plan_writtenIn : plan.WrittenIn Library.palindromeText := by
  refine Plan.writtenIn_of_chars rfl ?_ ?_
  · decide +kernel
  · decide +kernel

/-! ## Rules -/

theorem lookup_onLetters (f : Letter → Rule Phase) (empty : Rule Phase) (x : Letter) :
    (onLetters f empty).lookup x.symbol = some (f x) := by
  cases x <;> rfl

theorem lookup_onLetters_blank (f : Letter → Rule Phase) (empty : Rule Phase) :
    (onLetters f empty).lookup "_" = some empty := rfl

theorem lookup_onLetters_eq_none (f : Letter → Rule Phase) (empty : Rule Phase) {s : Symbol}
    (hs : ∀ x : Letter, s ≠ x.symbol) (hblank : s ≠ "_") : (onLetters f empty).lookup s = none := by
  rw [List.lookup_eq_none_iff]
  intro e he
  rcases List.mem_append.mp he with h | h
  · obtain ⟨x, -, rfl⟩ := List.mem_map.mp h
    simpa using hs x
  · obtain rfl := List.mem_singleton.mp h
    simpa using hblank

/-! ## Rounds -/

def symbols (u : List Letter) : List Symbol := u.map Letter.symbol

variable {u v : List Letter} {x y : Letter}

theorem trajectory_carry (x : Letter) (v : List Letter) (left right : List Symbol) :
    (around "_" (.carry x) left (symbols v ++ right)).trajectory plan.rules v.length =
      some (around "_" (.carry x) ((symbols v).reverse ++ left) right) :=
  trajectory_scan_right_map "_" (fun y => lookup_onLetters _ _ y) v left right

theorem trajectory_back (v : List Letter) (left right : List Symbol) :
    (before "_" .back ((symbols v).reverse ++ left) right).trajectory plan.rules v.length =
      some (before "_" .back left (symbols v ++ right)) :=
  trajectory_scan_left_map "_" (fun y => lookup_onLetters _ _ y) v left right

/-- Of no letters the empty word is left, and it is accepted. -/
theorem trajectory_nil (left : List Symbol) :
    (around "_" .start left []).trajectory plan.rules 1 =
      some (around "_" .accept ("_" :: left) []) := by
  rw [← around_append_blank]
  exact trajectory_right (lookup_onLetters_blank _ _) left []

theorem trajectory_singleton (x : Letter) (left : List Symbol) :
    (around "_" .start left (symbols [x])).trajectory plan.rules 3 =
      some (before "_" .accept left ["_", "_"]) := by
  have herase : (around "_" .start left (symbols [x])).trajectory plan.rules 1 =
      some (around "_" (.carry x) ("_" :: left) ["_"]) := by
    rw [symbols, List.map_singleton, trajectory_right (lookup_onLetters _ _ x),
      ← around_append_blank, List.nil_append]
  have hturn : (around "_" (.carry x) ("_" :: left) ["_"]).trajectory plan.rules 1 =
      some (around "_" (.compare x) left ["_", "_"]) := by
    rw [trajectory_left (lookup_onLetters_blank _ _), before_cons]
  have hcompare : (around "_" (.compare x) left ["_", "_"]).trajectory plan.rules 1 =
      some (before "_" .accept left ["_", "_"]) :=
    trajectory_left (lookup_onLetters_blank _ _) left ["_"]
  exact trajectory_trans herase (trajectory_trans hturn hcompare)

/-- From the first letter to the last one. -/
theorem trajectory_to_last (x y : Letter) (v : List Letter) (left : List Symbol) :
    (around "_" .start left (symbols (x :: (v ++ [y])))).trajectory plan.rules (v.length + 3) =
      some (around "_" (.compare x) ((symbols v).reverse ++ "_" :: left) [y.symbol, "_"]) := by
  have herase : (around "_" .start left (symbols (x :: (v ++ [y])))).trajectory plan.rules 1 =
      some (around "_" (.carry x) ("_" :: left) (symbols (v ++ [y]) ++ ["_"])) := by
    rw [around_append_blank]
    exact trajectory_right (lookup_onLetters _ _ x) left _
  have hcarry := trajectory_carry x (v ++ [y]) ("_" :: left) ["_"]
  have hsymbols : (symbols (v ++ [y])).reverse ++ "_" :: left =
      y.symbol :: ((symbols v).reverse ++ "_" :: left) := by
    simp [symbols]
  rw [hsymbols] at hcarry
  -- Behind the last letter there is an empty cell, where the head turns back.
  have hturn : (around "_" (.carry x) (y.symbol :: ((symbols v).reverse ++ "_" :: left))
      ["_"]).trajectory plan.rules 1 =
      some (around "_" (.compare x) ((symbols v).reverse ++ "_" :: left) [y.symbol, "_"]) := by
    rw [trajectory_left (lookup_onLetters_blank _ _), before_cons]
  have hlength : v.length + 3 = 1 + ((v ++ [y]).length + 1) := by
    rw [List.length_append, List.length_singleton]
    omega
  rw [hlength]
  exact trajectory_trans herase (trajectory_trans hcarry hturn)

/-- And back to what is left, if the two are the same. -/
theorem trajectory_to_first (x : Letter) (v : List Letter) (left : List Symbol) :
    (around "_" (.compare x) ((symbols v).reverse ++ "_" :: left) [x.symbol, "_"]).trajectory
      plan.rules (v.length + 2) = some (around "_" .start ("_" :: left) (symbols v)) := by
  have hrule : plan.rules (.compare x) x.symbol = some ⟨.back, "_", .left⟩ := by
    rw [show plan.rules (.compare x) x.symbol = some _ from lookup_onLetters _ _ x, if_pos rfl]
  have hback := trajectory_back v ("_" :: left) ["_", "_"]
  rw [before_cons] at hback
  have hstart : (around "_" .back left ("_" :: (symbols v ++ ["_", "_"]))).trajectory plan.rules 1 =
      some (around "_" .start ("_" :: left) (symbols v)) := by
    rw [trajectory_right (lookup_onLetters_blank _ _), List.append_cons, around_append_blank,
      around_append_blank]
  rw [show v.length + 2 = 1 + (v.length + 1) by omega]
  exact trajectory_trans (trajectory_left hrule _ ["_"]) (trajectory_trans hback hstart)

/-- A round erases the first and the last letter when they are the same. -/
theorem trajectory_round (x : Letter) (v : List Letter) (left : List Symbol) :
    (around "_" .start left (symbols (x :: (v ++ [x])))).trajectory plan.rules (2 * v.length + 5) =
      some (around "_" .start ("_" :: left) (symbols v)) := by
  rw [show 2 * v.length + 5 = v.length + 3 + (v.length + 2) by omega]
  exact trajectory_trans (trajectory_to_last x x v left) (trajectory_to_first x v left)

/-- A round ends the run when the first and the last letter differ. -/
theorem trajectory_differ (hxy : y ≠ x) (v : List Letter) (left : List Symbol) :
    (around "_" .start left (symbols (x :: (v ++ [y])))).trajectory plan.rules (v.length + 4) =
      some (before "_" .reject ((symbols v).reverse ++ "_" :: left) [y.symbol, "_"]) := by
  have hrule : plan.rules (.compare x) y.symbol = some ⟨.reject, y.symbol, .left⟩ := by
    rw [show plan.rules (.compare x) y.symbol = some _ from lookup_onLetters _ _ y, if_neg hxy]
  rw [show v.length + 4 = v.length + 3 + 1 by omega]
  exact trajectory_trans (trajectory_to_last x y v left) (trajectory_left hrule _ ["_"])

/-! ## Runs -/

/-- The number of steps for a palindrome of a length. -/
def stepCount (length : Nat) : Nat := (length + 1) * (length + 2) / 2

theorem stepCount_add_two (n : Nat) : stepCount (n + 2) = 2 * n + 5 + stepCount n := by
  unfold stepCount
  rw [show (n + 2 + 1) * (n + 2 + 2) = (n + 1) * (n + 2) + (2 * n + 5) * 2 by ring,
    Nat.add_mul_div_right _ _ (by decide), Nat.add_comm]

theorem stepCount_mono {m n : Nat} (h : m ≤ n) : stepCount m ≤ stepCount n :=
  Nat.div_le_div_right (Nat.mul_le_mul (by omega) (by omega))

/-- The default budget does for words of up to 445 letters. -/
theorem stepCount_le_default_iff (n : Nat) :
    stepCount n ≤ ({} : Settings).budget + 1 ↔ n ≤ 445 := by
  constructor
  · intro h
    by_contra hn
    have hmono : stepCount 446 ≤ stepCount n := stepCount_mono (by omega)
    rw [show stepCount 446 = 100128 by decide] at hmono
    have hbudget : ({} : Settings).budget = 100000 := rfl
    omega
  · intro h
    have hmono : stepCount n ≤ stepCount 445 := stepCount_mono h
    rw [show stepCount 445 = 99681 by decide] at hmono
    exact hmono.trans (by decide)

/-- Each round leaves a shorter palindrome and one more empty cell on the left. -/
theorem accepts (hu : u.Palindrome) {left : List Symbol} (hleft : ∀ s ∈ left, s = "_") :
    ∃ d, (around "_" .start left (symbols u)).trajectory plan.rules (stepCount u.length) = some d ∧
      d.state = .accept ∧ ∀ i, d.cell i = "_" := by
  induction hu generalizing left with
  | nil =>
    refine ⟨_, trajectory_nil left, rfl, cell_around_eq_blank _ ?_ ?_⟩
    · exact List.forall_mem_cons.mpr ⟨rfl, hleft⟩
    · exact List.forall_mem_nil _
  | singleton x =>
    have hright : ∀ s ∈ ["_", "_"], s = "_" := by decide
    rw [List.length_singleton, show stepCount 1 = 3 by decide]
    exact ⟨_, trajectory_singleton x left, rfl, cell_around_eq_blank Phase.accept hleft hright⟩
  | @cons_concat x v hv ih =>
    obtain ⟨d, hd, haccept, hcell⟩ := ih (List.forall_mem_cons.mpr ⟨rfl, hleft⟩)
    refine ⟨d, ?_, haccept, hcell⟩
    rw [List.length_cons, List.length_append, List.length_singleton, stepCount_add_two]
    exact trajectory_trans (trajectory_round x v left) hd

/-- A word that is no palindrome either has different ends or is none between them. -/
theorem rejects (hu : ¬ u.Palindrome) (left : List Symbol) :
    ∃ steps d, steps ≤ stepCount u.length ∧
      (around "_" .start left (symbols u)).trajectory plan.rules steps = some d ∧
      d.state = .reject := by
  induction u using List.bidirectionalRec generalizing left with
  | nil => exact absurd .nil hu
  | singleton x => exact absurd (.singleton x) hu
  | cons_append x v y ih =>
    rw [List.length_cons, List.length_append, List.length_singleton, stepCount_add_two]
    by_cases hxy : y = x
    · subst hxy
      obtain ⟨steps, d, hle, hd, hreject⟩ := ih (fun hv => hu (.cons_concat y hv)) ("_" :: left)
      refine ⟨_, d, Nat.add_le_add_left hle _, ?_, hreject⟩
      exact trajectory_trans (trajectory_round y v left) hd
    · refine ⟨v.length + 4, _, by omega, trajectory_differ hxy v left, rfl⟩

/-- What comes after a symbol that has no rule makes no difference. -/
theorem stuck_at (v : List Letter) {s : Symbol} (hs : ∀ x : Letter, s ≠ x.symbol)
    (hblank : s ≠ "_") (right : List Symbol) :
    ∃ d, (around "_" .start [] (symbols v ++ s :: right)).trajectory plan.rules v.length = some d ∧
      d.cell d.head = s ∧ plan.rules d.state s = none ∧
      ¬ (d.state = .accept ∨ d.state = .reject) := by
  cases v with
  | nil =>
    exact ⟨_, rfl, cell_around_head Phase.start [] right, lookup_onLetters_eq_none _ _ hs hblank,
      by simp [around]⟩
  | cons x v =>
    have herase : (around "_" .start [] (symbols (x :: v) ++ s :: right)).trajectory plan.rules 1 =
        some (around "_" (.carry x) ["_"] (symbols v ++ s :: right)) :=
      trajectory_right (lookup_onLetters _ _ x) [] _
    have hd := trajectory_trans herase (trajectory_carry x v ["_"] (s :: right))
    rw [Nat.add_comm] at hd
    exact ⟨_, hd, cell_around_head (Phase.carry x) _ right, lookup_onLetters_eq_none _ _ hs hblank,
      by simp [around]⟩

/-! ## Runs of the machine -/

section Machine

variable {c : Control} (hc : plan.RealizedBy c) {content : Array Symbol} (budget : Nat)

include hc

/-- A palindrome is accepted after exactly the steps that its length takes, with nothing left on
the tape. -/
theorem run_of_palindrome (hu : u.Palindrome) (hcontent : content.toList = symbols u)
    (hbudget : stepCount u.length ≤ budget + 1) :
    (Machine.fresh c { budget } content).run.1 = .ok .accepted ∧
      (Machine.fresh c { budget } content).run.2.steps = stepCount u.length ∧
      ∀ s ∈ (Machine.fresh c { budget } content).run.2.tape.cells, s = "_" := by
  obtain ⟨d, hd, haccept, hcell⟩ := accepts hu (List.forall_mem_nil _)
  rw [← hcontent, ← initial_eq_around] at hd
  have hrun := hc.runsTo_accepted { budget } hd haccept hbudget
  refine ⟨hrun.answer, hrun.steps, fun s hs => ?_⟩
  exact Tape.eq_of_padded_eq (fun i => (hrun.pictures.cell i).trans (hcell i)) hs

/-- A palindrome that takes more steps than the budget has exhausts it. -/
theorem run_of_palindrome_exhausted (hu : u.Palindrome) (hcontent : content.toList = symbols u)
    (hbudget : budget + 1 < stepCount u.length) :
    (Machine.fresh c { budget } content).run.1 = .ok .budgetExhausted := by
  obtain ⟨d, hd, haccept, -⟩ := accepts hu (List.forall_mem_nil _)
  rw [← hcontent, ← initial_eq_around] at hd
  obtain ⟨e, hrun⟩ := hc.runsTo_exhausted { budget } hd (.inl haccept) hbudget
  exact hrun.answer

/-- No other word is accepted, and it is rejected if the budget does for a palindrome of its
length. -/
theorem run_of_not_palindrome (hu : ¬ u.Palindrome) (hcontent : content.toList = symbols u) :
    (Machine.fresh c { budget } content).run.1 = .ok .rejected ∨
      (Machine.fresh c { budget } content).run.1 = .ok .budgetExhausted ∧
        budget + 1 < stepCount u.length := by
  obtain ⟨steps, d, hle, hd, hreject⟩ := rejects hu []
  rw [← hcontent, ← initial_eq_around] at hd
  by_cases hsteps : steps ≤ budget + 1
  · exact .inl (hc.runsTo_rejected { budget } hd hreject hsteps).answer
  · obtain ⟨e, hrun⟩ := hc.runsTo_exhausted { budget } hd (.inr hreject) (Nat.lt_of_not_le hsteps)
    exact .inr ⟨hrun.answer, by omega⟩

/-- A character that is no letter stops the run when the first letter is carried to it. -/
theorem run_of_foreign {v : List Letter} {s : Symbol} {right : List Symbol}
    (hs : ∀ x : Letter, s ≠ x.symbol) (hblank : s ≠ "_")
    (hcontent : content.toList = symbols v ++ s :: right) (hbudget : v.length ≤ budget) :
    (∃ q, (Machine.fresh c { budget } content).run.1 = .error (.undefinedTransition q s)) ∧
      (Machine.fresh c { budget } content).run.2.steps = v.length := by
  obtain ⟨d, hd, hcell, hrule, hhalted⟩ := stuck_at v hs hblank right
  rw [← hcontent, ← initial_eq_around] at hd
  have hrun := hc.runsTo_stuck { budget } hd (by rw [hcell, hrule]) hhalted hbudget
  rw [hcell] at hrun
  exact ⟨⟨_, hrun.answer⟩, hrun.steps⟩

/-- With the default budget a word is accepted exactly when it is a palindrome that is not too
long. -/
theorem accepted_iff_of_default (hcontent : content.toList = symbols u) :
    (Machine.fresh c {} content).run.1 = .ok .accepted ↔ u.Palindrome ∧ u.length ≤ 445 := by
  rw [← stepCount_le_default_iff]
  constructor
  · intro haccepted
    by_contra hnot
    by_cases hu : u.Palindrome
    · have hlt := Nat.lt_of_not_le fun hle => hnot ⟨hu, hle⟩
      rw [run_of_palindrome_exhausted hc _ hu hcontent hlt] at haccepted
      cases haccepted
    · rcases run_of_not_palindrome hc ({} : Settings).budget hu hcontent with h | ⟨h, -⟩
      · exact absurd (haccepted.symm.trans h) (by decide)
      · exact absurd (haccepted.symm.trans h) (by decide)
  · intro ⟨hu, hle⟩
    exact (run_of_palindrome hc _ hu hcontent hle).1

end Machine

/-! ## Words -/

/-- A word over the three characters is made of letters. -/
theorem exists_letters {cs : List Char} (h : Over ['a', 'b', 'c'] cs) :
    ∃ u : List Letter, cs = u.map Letter.char := by
  induction cs with
  | nil => exact ⟨[], rfl⟩
  | cons ch cs ih =>
    obtain ⟨hch, hcs⟩ := Library.over_cons_iff.mp h
    obtain ⟨u, rfl⟩ := ih hcs
    obtain ⟨x, -, rfl⟩ := List.mem_map.mp (show ch ∈ letters.map Letter.char from hch)
    exact ⟨x :: u, rfl⟩

theorem char_injective : Function.Injective Letter.char := by
  intro x y h
  cases x <;> cases y <;> first | rfl | exact absurd h (by decide)

theorem palindrome_iff_reverse_chars :
    u.Palindrome ↔ (u.map Letter.char).reverse = u.map Letter.char := by
  rw [List.Palindrome.iff_reverse_eq, ← List.map_reverse]
  exact (List.map_injective_iff.mpr char_injective).eq_iff.symm

theorem symbolsOfWord_letters {word : String} {rest : List Char}
    (hword : word.toList = u.map Letter.char ++ rest) :
    (Machine.symbolsOfWord word).toList = symbols u ++ rest.map String.singleton := by
  unfold Machine.symbolsOfWord symbols
  rw [hword, List.map_append, List.map_map]
  rfl

theorem ne_symbol_of_notMem {ch : Char} (h : ch ∉ ['a', 'b', 'c']) (x : Letter) :
    String.singleton ch ≠ x.symbol := by
  intro heq
  have hch : ch = x.char := by simpa [Letter.symbol, String.singleton_inj] using heq
  cases x <;> simp_all [Letter.char]

/-- On words over the three letters the machine decides whether they are palindromes, if the budget
suffices for one of that length: it takes exactly as many steps and leaves the tape empty if it is
one. On other words without the empty symbol it stops at the first unknown character. -/
theorem decides_palindromes (word : String) {budget : Nat} (hbudget : budget ≤ 2 ^ 63 - 1) :
    ∃ m, Library.machineOn "palindrome" budget word = .ok m ∧
      (Over ['a', 'b', 'c'] word.toList →
        (word.toList.reverse = word.toList → stepCount word.length ≤ budget + 1 →
          m.run.1 = .ok .accepted ∧ m.run.2.steps = stepCount word.length ∧
            ∀ s ∈ m.run.2.tape.cells, s = "_") ∧
        (word.toList.reverse = word.toList → budget + 1 < stepCount word.length →
          m.run.1 = .ok .budgetExhausted) ∧
        (word.toList.reverse ≠ word.toList → stepCount word.length ≤ budget + 1 →
          m.run.1 = .ok .rejected) ∧
        (budget = ({} : Settings).budget →
          (m.run.1 = .ok .accepted ↔
            word.toList.reverse = word.toList ∧ word.length ≤ 445))) ∧
      ∀ known ch rest, word.toList = known ++ ch :: rest → Over ['a', 'b', 'c'] known →
        ch ∉ ['a', 'b', 'c'] → '_' ∉ word.toList → known.length ≤ budget →
          (∃ q, m.run.1 = .error (.undefinedTransition q (String.singleton ch))) ∧
            m.run.2.steps = known.length := by
  have htext : Library.texts.find? (·.1 = "palindrome") =
      some ("palindrome", Library.palindromeText) := rfl
  obtain ⟨c, hc, hm⟩ := Library.exists_machineOn htext plan_writtenIn hbudget word
  refine ⟨_, hm, fun hover => ?_, fun known ch rest hword hknown hch hblank hlength => ?_⟩
  -- A word over the three characters is one of letters, and what is said of it is said of these.
  · obtain ⟨u, hu⟩ := exists_letters hover
    have hcontent : (Machine.symbolsOfWord word).toList = symbols u := by
      rw [symbolsOfWord_letters (hu.trans (List.append_nil _).symm), List.map_nil, List.append_nil]
    have hpal : u.Palindrome ↔ word.toList.reverse = word.toList := by
      rw [hu, palindrome_iff_reverse_chars]
    have hlength : word.length = u.length := by rw [← String.length_toList, hu, List.length_map]
    rw [hlength, ne_eq, ← hpal]
    refine ⟨fun h => run_of_palindrome hc budget h hcontent,
      fun h => run_of_palindrome_exhausted hc budget h hcontent, fun h hle => ?_, ?_⟩
    · have hnlt : ¬ budget + 1 < stepCount u.length := Nat.not_lt_of_le hle
      exact (run_of_not_palindrome hc budget h hcontent).resolve_right fun hlt => hnlt hlt.2
    · rintro rfl
      exact accepted_iff_of_default hc hcontent
  · obtain ⟨v, rfl⟩ := exists_letters hknown
    -- The character is not even the empty cell, so that no rule fits it.
    have hne : String.singleton ch ≠ "_" := by
      intro heq
      have hch : ch = '_' := String.singleton_inj.mp heq
      exact hblank (by rw [hword, hch]; simp)
    have hcontent := symbolsOfWord_letters hword
    rw [List.length_map] at hlength ⊢
    exact run_of_foreign hc budget (ne_symbol_of_notMem hch) hne hcontent hlength

theorem decides_palindromes_of_four_letters :
    (∃ m, Library.machineOn "palindrome" 20 "abba" = .ok m ∧ m.run.1 = .ok .accepted ∧
      m.run.2.steps = 15) ∧
    (∃ m, Library.machineOn "palindrome" 10 "abba" = .ok m ∧ m.run.1 = .ok .budgetExhausted) ∧
    (∃ m, Library.machineOn "palindrome" 20 "abca" = .ok m ∧ m.run.1 = .ok .rejected) ∧
    ∃ m, Library.machineOn "palindrome" 20 "ab!a" = .ok m ∧
      (∃ q, m.run.1 = .error (.undefinedTransition q "!")) ∧ m.run.2.steps = 2 := by
  refine ⟨?_, ?_, ?_, ?_⟩
  · obtain ⟨m, hm, h, -⟩ := decides_palindromes "abba" (show 20 ≤ 2 ^ 63 - 1 by decide)
    obtain ⟨haccepted, hsteps, -⟩ := (h (by decide)).1 (by decide) (by decide)
    exact ⟨m, hm, haccepted, hsteps⟩
  · obtain ⟨m, hm, h, -⟩ := decides_palindromes "abba" (show 10 ≤ 2 ^ 63 - 1 by decide)
    exact ⟨m, hm, (h (by decide)).2.1 (by decide) (by decide)⟩
  · obtain ⟨m, hm, h, -⟩ := decides_palindromes "abca" (show 20 ≤ 2 ^ 63 - 1 by decide)
    exact ⟨m, hm, (h (by decide)).2.2.1 (by decide) (by decide)⟩
  · obtain ⟨m, hm, -, h⟩ := decides_palindromes "ab!a" (show 20 ≤ 2 ^ 63 - 1 by decide)
    have hstuck := h ['a', 'b'] '!' ['a'] (by decide) (by decide) (by decide)
    exact ⟨m, hm, hstuck (by decide) (by decide)⟩

end SingleTape.Palindrome
