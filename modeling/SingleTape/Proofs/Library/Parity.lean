import Mathlib.Algebra.Group.Nat.Even
import Mathlib.Data.Nat.Bits
import SingleTape.Proofs.Library.Plan
import SingleTape.Proofs.Machine.Scanning

/-!
# The parity of the ones

The machine goes to the right over zeros and ones, and its state tells whether it has seen an odd
number of ones. An empty cell ends the word, also one that the word itself brings, and any other
character stops the machine. So there are three ways for a run to end, and which one it is depends
on the zeros and ones that the word begins with, on the character behind them, and on the budget.
-/

namespace SingleTape.Parity

open Textbook (Rule)
open Textbook.Config
open Library (Over)

/-- What the machine is doing: reading, with the parity of the ones it has read. -/
inductive Phase where
  | reading (odd : Bool)
  | accept
  | reject
deriving DecidableEq

def phaseName : Phase → String
  | .reading false => "even"
  | .reading true => "odd"
  | .accept => "accept"
  | .reject => "reject"

def Phase.verdict (odd : Bool) : Phase := if odd then .reject else .accept

def plan : Plan Phase where
  phases := [.reading false, .reading true, .accept, .reject]
  name := phaseName
  table
    | .reading odd => [("0", ⟨.reading odd, "0", .right⟩), ("1", ⟨.reading !odd, "1", .right⟩),
        ("_", ⟨.verdict odd, "_", .right⟩)]
    | .accept => []
    | .reject => []
  start := .reading false
  accept := .accept
  reject := .reject
  mem_phases q := by
    cases q with
    | reading odd => cases odd <;> decide
    | accept => decide
    | reject => decide
  accept_ne_reject := by decide
  table_accept := rfl
  table_reject := rfl

set_option maxRecDepth 4000 in
/-- The plan is what the built-in text says. -/
theorem plan_writtenIn : plan.WrittenIn Library.parityText := by
  refine Plan.writtenIn_of_chars rfl ?_ ?_
  · decide +kernel
  · decide +kernel

/-! ## Words -/

def bits (word : String) : List Char := word.toList.takeWhile (· ∈ ['0', '1'])

def rest (word : String) : List Char := word.toList.dropWhile (· ∈ ['0', '1'])

theorem over_bits (word : String) : Over ['0', '1'] (bits word) := by
  intro ch hch
  have hbit := List.mem_takeWhile_imp (p := fun ch => decide (ch ∈ ['0', '1'])) hch
  exact of_decide_eq_true hbit

/-- The bits of a word end where the first other character is. -/
theorem notMem_of_head?_rest {word : String} {ch : Char} (h : (rest word).head? = some ch) :
    ch ∉ ['0', '1'] := by
  have hfirst := List.head?_dropWhile_not (fun ch => decide (ch ∈ ['0', '1'])) word.toList
  rw [show word.toList.dropWhile _ = rest word from rfl, h] at hfirst
  exact of_decide_eq_false hfirst

theorem symbolsOfWord_eq (word : String) :
    (Machine.symbolsOfWord word).toList =
      (bits word).map String.singleton ++ (rest word).map String.singleton := by
  rw [← List.map_append, bits, rest, List.takeWhile_append_dropWhile]
  rfl

def odd (cs : List Char) : Bool := (cs.count '1').bodd

theorem odd_cons (ch : Char) (cs : List Char) :
    odd (ch :: cs) = (decide (ch = '1') ^^ odd cs) := by
  rw [odd, List.count_cons, Nat.bodd_add, Bool.xor_comm]
  by_cases hch : ch = '1'
  · rw [if_pos (beq_iff_eq.mpr hch), decide_eq_true hch]
    rfl
  · rw [if_neg (mt beq_iff_eq.mp hch), decide_eq_false hch]
    rfl

theorem odd_eq_false_iff (cs : List Char) : odd cs = false ↔ Even (cs.count '1') := by
  rw [odd, Nat.even_iff, Nat.mod_two_of_bodd]
  cases (cs.count '1').bodd <;> decide

theorem ite_even_ones {α : Type} (cs : List Char) (x y : α) :
    (if Even (cs.count '1') then x else y) = if odd cs then y else x := by
  simp only [← odd_eq_false_iff]
  cases odd cs <;> rfl

/-! ## Trajectories -/

/-- The machine goes to the right over zeros and ones and leaves them as they are. -/
theorem trajectory_bits {cs : List Char} (hcs : Over ['0', '1'] cs) (b : Bool)
    (left right : List Symbol) :
    (around "_" (.reading b) left (cs.map String.singleton ++ right)).trajectory plan.rules
      cs.length =
      some (around "_" (.reading (b ^^ odd cs)) ((cs.map String.singleton).reverse ++ left)
        right) := by
  -- By induction on the characters: the state keeps the parity of the ones to the left of the head.
  induction cs generalizing b left with
  | nil =>
    rw [show odd [] = false from rfl, Bool.xor_false]
    rfl
  | cons ch cs ih =>
    obtain ⟨hch, hcs⟩ := Library.over_cons_iff.mp hcs
    have hrule : plan.rules (.reading b) (String.singleton ch) =
        some ⟨.reading (b ^^ decide (ch = '1')), String.singleton ch, .right⟩ := by
      simp only [List.mem_cons, List.not_mem_nil, or_false] at hch
      rcases hch with rfl | rfl <;> cases b <;> rfl
    rw [List.length_cons, Nat.add_comm, odd_cons, ← Bool.xor_assoc, List.map_cons,
      List.reverse_cons, List.append_assoc]
    exact trajectory_trans (trajectory_right hrule left _) (ih hcs _ _)

/-- At an empty cell the parity so far is the verdict. -/
theorem trajectory_verdict {right : List Symbol} (hright : right.headD "_" = "_") (b : Bool)
    (left : List Symbol) :
    ∃ d, (around "_" (.reading b) left right).trajectory plan.rules 1 = some d ∧
      d.state = .verdict b := by
  have hrule : plan.rules (.reading b) "_" = some ⟨.verdict b, "_", .right⟩ := rfl
  cases right with
  | nil =>
    rw [← around_append_blank]
    exact ⟨_, trajectory_right hrule left [], rfl⟩
  | cons s right =>
    obtain rfl : s = "_" := hright
    exact ⟨_, trajectory_right hrule left right, rfl⟩

/-- There is no rule for a character that is neither a bit nor the empty cell. -/
theorem rules_eq_none {ch : Char} (hbit : ch ∉ ['0', '1']) (hblank : ch ≠ '_') (b : Bool) :
    plan.rules (.reading b) (String.singleton ch) = none := by
  refine List.lookup_eq_none_iff.mpr fun e he => bne_iff_ne.mpr fun hkey => ?_
  have hkeys : e.1 ∈ ['0', '1', '_'].map String.singleton := List.mem_map_of_mem he
  obtain ⟨x, hx, heq⟩ := List.mem_map.mp hkeys
  obtain rfl : ch = x := String.singleton_inj.mp (hkey.trans heq.symm)
  simp only [List.mem_cons, List.not_mem_nil, or_false, not_or] at hx hbit
  exact hx.elim hbit.1 fun hx => hx.elim hbit.2 hblank

/-- Reading all bits of a word leads to its parity. -/
theorem trajectory_word (word : String) :
    (initial (.reading false) (Machine.symbolsOfWord word) "_").trajectory plan.rules
      (bits word).length =
      some (around "_" (.reading (odd (bits word))) ((bits word).map String.singleton).reverse
        ((rest word).map String.singleton)) := by
  rw [initial_eq_around, symbolsOfWord_eq, trajectory_bits (over_bits word), Bool.false_xor,
    List.append_nil]

/-! ## Runs -/

theorem not_halted (b : Bool) : ¬ (Phase.reading b = plan.accept ∨ Phase.reading b = plan.reject) :=
  fun h => h.elim (fun h => nomatch h) fun h => nomatch h

section Runs

variable {c : Control} (hc : plan.RealizedBy c) {word : String} {budget : Nat}

include hc

/-- With less budget than bits the run stops among the bits. -/
theorem run_exhausted (h : budget < (bits word).length) :
    ∃ e, (Machine.fresh c { budget } (Machine.symbolsOfWord word)).RunsTo (.ok .budgetExhausted)
      (budget + 1) e (-1) :=
  hc.runsTo_exhausted_of_running { budget } (trajectory_word word) (not_halted _) h

/-- When the bits end at an empty cell the parity decides. -/
theorem run_ended (h : (bits word).length ≤ budget)
    (hend : ((rest word).map String.singleton).headD "_" = "_") :
    ∃ e, (Machine.fresh c { budget } (Machine.symbolsOfWord word)).RunsTo
      (.ok (if odd (bits word) then .rejected else .accepted)) ((bits word).length + 1) e
      (budget - ((bits word).length + 1 : Nat)) := by
  obtain ⟨d, hd, hstate⟩ := trajectory_verdict hend (odd (bits word)) _
  have hreached := trajectory_trans (trajectory_word word) hd
  have hsteps : (bits word).length + 1 ≤ budget + 1 := Nat.succ_le_succ h
  cases hodd : odd (bits word) with
  | false =>
    rw [hodd] at hstate
    exact ⟨_, hc.runsTo_accepted { budget } hreached hstate hsteps⟩
  | true =>
    rw [hodd] at hstate
    exact ⟨_, hc.runsTo_rejected { budget } hreached hstate hsteps⟩

/-- When the bits end at another character there is no rule for it. -/
theorem run_stuck (h : (bits word).length ≤ budget) {ch : Char}
    (hch : (rest word).head? = some ch) (hblank : ch ≠ '_') :
    ∃ e, (Machine.fresh c { budget } (Machine.symbolsOfWord word)).RunsTo
      (.error (.undefinedTransition (if odd (bits word) then "odd" else "even")
        (String.singleton ch))) (bits word).length e (budget - (bits word).length - 1) := by
  obtain ⟨more, hmore⟩ := List.head?_eq_some_iff.mp hch
  have hreached := trajectory_word word
  rw [hmore, List.map_cons] at hreached
  obtain ⟨d, hd, hstate, hcell⟩ : ∃ d, (initial (.reading false) (Machine.symbolsOfWord word)
      "_").trajectory plan.rules (bits word).length = some d ∧
      d.state = .reading (odd (bits word)) ∧ d.cell d.head = String.singleton ch :=
    ⟨_, hreached, rfl, cell_around_head _ _ _⟩
  -- Behind the bits the machine is reading, and finds a character that it has no rule for.
  have hrule := rules_eq_none (notMem_of_head?_rest hch) hblank (odd (bits word))
  have hrun := hc.runsTo_stuck { budget } hd (by rw [hstate, hcell, hrule])
    (by rw [hstate]; exact not_halted _) h
  have hname : plan.name (.reading (odd (bits word))) =
      if odd (bits word) then "odd" else "even" := by
    cases odd (bits word) <;> rfl
  rw [hstate, hcell, hname] at hrun
  exact ⟨_, hrun⟩

end Runs

/-- What the machine answers for a word depends on the zeros and ones at its beginning. If the
budget ends among them, it is used up. If nothing or an empty cell is behind them, the machine
accepts just if the number of ones is even. If any other character is behind them, it stops
there. -/
theorem decides_parity (word : String) {budget : Nat} (hbudget : budget ≤ 2 ^ 63 - 1) :
    ∃ m, Library.machineOn "parity" budget word = .ok m ∧
      (budget < (bits word).length →
        m.run.1 = .ok .budgetExhausted ∧ m.run.2.steps = budget + 1) ∧
      ((bits word).length ≤ budget →
        ((rest word).head? = none ∨ (rest word).head? = some '_' →
          m.run.1 = .ok (if Even ((bits word).count '1') then .accepted else .rejected) ∧
            m.run.2.steps = (bits word).length + 1) ∧
        ∀ ch, (rest word).head? = some ch → ch ≠ '_' →
          m.run.1 = .error (.undefinedTransition
              (if Even ((bits word).count '1') then "even" else "odd") (String.singleton ch)) ∧
            m.run.2.steps = (bits word).length) := by
  have htext : Library.texts.find? (·.1 = "parity") = some ("parity", Library.parityText) := rfl
  obtain ⟨c, hc, hm⟩ := Library.exists_machineOn htext plan_writtenIn hbudget word
  -- The run ends among the bits, at an empty cell behind them, or at another character.
  refine ⟨_, hm, fun h => ?_, fun h => ⟨fun hend => ?_, fun ch hch hblank => ?_⟩⟩
  · obtain ⟨e, hrun⟩ := run_exhausted hc h
    exact ⟨hrun.answer, hrun.steps⟩
  · have hblank : ((rest word).map String.singleton).headD "_" = "_" := by
      rw [List.headD_eq_head?_getD, List.head?_map]
      rcases hend with hend | hend <;> rw [hend] <;> rfl
    obtain ⟨e, hrun⟩ := run_ended hc h hblank
    rw [ite_even_ones]
    exact ⟨hrun.answer, hrun.steps⟩
  · obtain ⟨e, hrun⟩ := run_stuck hc h hch hblank
    rw [ite_even_ones]
    exact ⟨hrun.answer, hrun.steps⟩

theorem decides_parity_of_four_bits :
    (∃ m, Library.machineOn "parity" 3 "1101" = .ok m ∧ m.run.1 = .ok .budgetExhausted ∧
      m.run.2.steps = 4) ∧
    (∃ m, Library.machineOn "parity" 4 "1101" = .ok m ∧ m.run.1 = .ok .rejected ∧
      m.run.2.steps = 5) ∧
    (∃ m, Library.machineOn "parity" 4 "0110_x" = .ok m ∧ m.run.1 = .ok .accepted ∧
      m.run.2.steps = 5) ∧
    ∃ m, Library.machineOn "parity" 4 "1000x" = .ok m ∧
      m.run.1 = .error (.undefinedTransition "odd" "x") ∧ m.run.2.steps = 4 := by
  refine ⟨?_, ?_, ?_, ?_⟩
  · obtain ⟨m, hm, h, -⟩ := decides_parity "1101" (show 3 ≤ 2 ^ 63 - 1 by decide)
    exact ⟨m, hm, h (by decide)⟩
  · obtain ⟨m, hm, -, h⟩ := decides_parity "1101" (show 4 ≤ 2 ^ 63 - 1 by decide)
    exact ⟨m, hm, (h (by decide)).1 (.inl (by decide))⟩
  · obtain ⟨m, hm, -, h⟩ := decides_parity "0110_x" (show 4 ≤ 2 ^ 63 - 1 by decide)
    exact ⟨m, hm, (h (by decide)).1 (.inr (by decide))⟩
  · obtain ⟨m, hm, -, h⟩ := decides_parity "1000x" (show 4 ≤ 2 ^ 63 - 1 by decide)
    exact ⟨m, hm, (h (by decide)).2 'x' (by decide) (by decide)⟩

end SingleTape.Parity
