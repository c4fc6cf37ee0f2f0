import Mathlib.Data.Nat.Digits.Defs
import SingleTape.Proofs.Library.Column

/-!
# Sums

The machine adds as it is done by hand, column after column with a carry, and compares each digit
that it gets with the one that is given. It ends where two digits differ, and where neither the
operands nor the result have any left.
-/

namespace SingleTape.Addition

open Textbook (Config)
open Textbook.Config
open Library (Over)

/-! ## Values -/

/-- The number that is written with these digits, the least significant first. -/
def value (ds : List Bool) : Nat := Nat.ofDigits 2 (ds.map Bool.toNat)

/-- A number is its lowest digit plus twice the rest. -/
theorem value_eq (ds : List Bool) : value ds = (ds.headD false).toNat + 2 * value ds.tail := by
  cases ds with
  | nil => rfl
  | cons d ds =>
    show Nat.ofDigits 2 (d.toNat :: ds.map Bool.toNat) = d.toNat + 2 * value ds
    rw [Nat.ofDigits_cons]
    rfl

theorem val_plus {n : Nat} (t : Fin n) (d : Bool) : (plus t d).val = t.val + d.toNat := by
  cases d <;> rfl

theorem val_sum (c : Fin 2) (a b : Operand) :
    (sum c a b).val = c.val + a.bit.toNat + b.bit.toNat := by
  rw [sum, val_plus, val_plus]

theorem eq_parity_iff (d : Bool) (t : Fin 4) : d = parity t ↔ d.toNat = t.val % 2 := by
  revert d t
  decide

variable {c : Fin 2} {a b r : Operand} {s : Symbol}

def Adds (c : Fin 2) (a b r : Operand) : Prop :=
  c.val + value a.rest + value b.rest = value r.rest

/-- It is if the digits of the column agree and what is left is a sum with the carry of the column.
-/
theorem adds_iff (c : Fin 2) (a b r : Operand) :
    Adds c a b r ↔ r.bit = parity (sum c a b) ∧ Adds (half (sum c a b)) a.next b.next r.next := by
  unfold Adds
  rw [eq_parity_iff, show (half (sum c a b)).val = (sum c a b).val / 2 from rfl, val_sum,
    value_eq a.rest, value_eq b.rest, value_eq r.rest, a.rest_next, b.rest_next, r.rest_next]
  show c.val + (a.bit.toNat + _) + (b.bit.toNat + _) = r.bit.toNat + _ ↔ _
  have hr := r.bit.toNat_lt
  omega

/-! ## All columns -/

def left (a b r : Operand) : Nat := a.rest.length + b.rest.length + r.rest.length

/-- A column leaves the operands as long as they were, so the next one takes no more steps. -/
theorem columnBound_next (a b r : Operand) :
    columnBound a.next b.next r.next = columnBound a b r := by
  unfold columnBound
  rw [a.length_cells_next, b.length_cells_next, r.length_cells_next]

/-- Every column leaves fewer digits to be added. -/
theorem left_next_lt (h : ¬ (a.rest = [] ∧ b.rest = [] ∧ r.rest = [])) :
    left a.next b.next r.next < left a b r := by
  unfold left
  rw [a.rest_next, b.rest_next, r.rest_next, List.length_tail, List.length_tail, List.length_tail]
  by_contra hle
  apply h
  rw [← List.length_eq_zero_iff, ← List.length_eq_zero_iff, ← List.length_eq_zero_iff]
  omega

/-- Operands that are used up add up when the last digit is right. -/
theorem adds_of_rest_eq_nil (ha : a.rest = []) (hb : b.rest = []) (hr : r.rest = [])
    (h : r.bit = parity (sum c a b)) : Adds c a b r := by
  rw [eq_parity_iff, val_sum, Operand.bit, Operand.bit, Operand.bit, ha, hb, hr] at h
  rw [Adds, ha, hb, hr]
  change 0 = (c.val + 0 + 0) % 2 at h
  change c.val + 0 + 0 = 0
  omega

/-- From the beginning of a column the machine comes to accept just if what is left adds up. -/
theorem decides_columns (hs : s = "_" ∨ s = "#") (right : List Symbol) (c : Fin 2)
    (a b r : Operand) :
    ∃ k d, k ≤ (left a b r + 1) * columnBound a b r ∧
      (between c a b r s right).trajectory plan.rules k = some d ∧
      (s = "_" ∧ Adds c a b r → d.state = .accept) ∧
      (¬ (s = "_" ∧ Adds c a b r) → d.state = .reject) := by
  -- By induction on the digits that are left: each column but the last takes at least one.
  induction hn : left a b r using Nat.strong_induction_on generalizing c a b r with
  | h n ih =>
    have hbound : columnBound a b r ≤ (n + 1) * columnBound a b r :=
      Nat.le_mul_of_pos_left _ (Nat.succ_pos n)
    by_cases hagrees : Agrees (sum c a b) r s
    · by_cases hrest : a.rest = [] ∧ b.rest = [] ∧ r.rest = []
      · obtain ⟨ha, hb, hr⟩ := hrest
        obtain ⟨k, d, hk, hd, haccept⟩ := column_accept ha hb hr hagrees right
        have hadds : s = "_" ∧ Adds c a b r :=
          ⟨hagrees.2 hr, adds_of_rest_eq_nil ha hb hr hagrees.1⟩
        exact ⟨k, d, hk.trans hbound, hd, fun _ => haccept, fun h => absurd hadds h⟩
      · obtain ⟨k, hk, hcolumn⟩ := column_next hrest hagrees right
        have hlt : left a.next b.next r.next < n := hn ▸ left_next_lt hrest
        obtain ⟨k', d, hk', hd, haccept, hreject⟩ := ih _ hlt _ _ _ _ rfl
        have hadds : Adds c a b r ↔ Adds (half (sum c a b)) a.next b.next r.next := by
          rw [adds_iff]
          exact and_iff_right hagrees.1
        rw [← hadds] at haccept hreject
        refine ⟨k + k', d, ?_, trajectory_trans hcolumn hd, haccept, hreject⟩
        rw [columnBound_next] at hk'
        calc k + k' ≤ columnBound a b r + (left a.next b.next r.next + 1) * columnBound a b r :=
              Nat.add_le_add hk hk'
          _ ≤ columnBound a b r + n * columnBound a b r :=
              Nat.add_le_add_left (Nat.mul_le_mul_right _ hlt) _
          _ = (n + 1) * columnBound a b r := by rw [Nat.succ_mul, Nat.add_comm]
    · obtain ⟨k, d, hk, hd, hreject⟩ := column_reject hagrees hs right
      have hnot : ¬ (s = "_" ∧ Adds c a b r) := fun ⟨hblank, hadds⟩ =>
        hagrees ⟨((adds_iff c a b r).mp hadds).1, fun _ => hblank⟩
      exact ⟨k, d, hk.trans hbound, hd, fun h => absurd h hnot, fun _ => hreject⟩

/-! ## Words -/

def digitChar : Bool → Char
  | false => '0'
  | true => '1'

def written (ds : List Bool) : List Char := ds.map digitChar

/-- The word consists of two operands and their sum. -/
def IsSum (cs : List Char) : Prop :=
  ∃ a b r : List Bool, cs = written a ++ '#' :: (written b ++ '#' :: written r) ∧
    value a + value b = value r

theorem symbols_written (ds : List Bool) : (written ds).map String.singleton = ds.map digit := by
  rw [written, List.map_map]
  apply List.map_congr_left
  intro d _
  cases d <;> rfl

theorem length_written (ds : List Bool) : (written ds).length = ds.length := List.length_map _

theorem digitChar_injective : Function.Injective digitChar := by
  decide

theorem hash_notMem_written (ds : List Bool) : '#' ∉ written ds := by
  intro h
  obtain ⟨d, -, hd⟩ := List.mem_map.mp h
  exact absurd hd (by revert d; decide)

/-- A number ends at the first sign after it. -/
theorem written_append_hash_inj {ds ds' : List Bool} {rest rest' : List Char}
    (h : written ds ++ '#' :: rest = written ds' ++ '#' :: rest') : ds = ds' ∧ rest = rest' := by
  have htake : ∀ (ds : List Bool) (rest : List Char),
      (written ds ++ '#' :: rest).takeWhile (· ≠ '#') = written ds := by
    intro ds rest
    have hne : ∀ ch ∈ written ds, decide (ch ≠ '#') = true := by
      intro ch hch
      exact decide_eq_true fun heq => hash_notMem_written ds (heq ▸ hch)
    rw [List.takeWhile_append_of_pos hne, List.takeWhile_cons_of_neg (by decide), List.append_nil]
  have hds : written ds = written ds' := by rw [← htake ds rest, h, htake]
  obtain rfl := List.map_injective_iff.mpr digitChar_injective hds
  exact ⟨rfl, (List.cons.inj (List.append_cancel_left h)).2⟩

/-- A word over digits and signs begins with digits, and a sign follows them unless it is at its
end. -/
theorem exists_written {cs : List Char} (h : Over ['0', '1', '#'] cs) :
    ∃ ds rest, cs = written ds ++ rest ∧ (rest = [] ∨ ∃ more, rest = '#' :: more) := by
  induction cs with
  | nil => exact ⟨[], [], rfl, .inl rfl⟩
  | cons ch cs ih =>
    obtain ⟨hch, hcs⟩ := Library.over_cons_iff.mp h
    obtain ⟨ds, rest, rfl, hrest⟩ := ih hcs
    simp only [List.mem_cons, List.not_mem_nil, or_false] at hch
    rcases hch with rfl | rfl | rfl
    · exact ⟨false :: ds, rest, rfl, hrest⟩
    · exact ⟨true :: ds, rest, rfl, hrest⟩
    · exact ⟨[], _, rfl, .inr ⟨_, rfl⟩⟩

theorem not_isSum_written (ds : List Bool) : ¬ IsSum (written ds) := by
  intro ⟨a, b, r, h, _⟩
  exact hash_notMem_written ds (by rw [h]; simp)

/-- Two numbers are no sum. -/
theorem not_isSum_of_one_hash (ds ds' : List Bool) :
    ¬ IsSum (written ds ++ '#' :: written ds') := by
  intro ⟨a, b, r, h, _⟩
  obtain ⟨-, hrest⟩ := written_append_hash_inj h
  exact hash_notMem_written ds' (by rw [hrest]; simp)

/-- Three numbers are a sum when nothing follows them and their values add up. -/
theorem isSum_iff (a b r : List Bool) {rest : List Char}
    (hrest : rest = [] ∨ ∃ more, rest = '#' :: more) :
    IsSum (written a ++ '#' :: (written b ++ '#' :: (written r ++ rest))) ↔
      rest = [] ∧ value a + value b = value r := by
  constructor
  · intro ⟨a', b', r', h, hvalue⟩
    obtain ⟨rfl, hfirst⟩ := written_append_hash_inj h
    obtain ⟨rfl, hsecond⟩ := written_append_hash_inj hfirst
    rcases hrest with rfl | ⟨more, rfl⟩
    · rw [List.append_nil] at hsecond
      obtain rfl := List.map_injective_iff.mpr digitChar_injective hsecond
      exact ⟨rfl, hvalue⟩
    · exact absurd (by rw [← hsecond]; simp) (hash_notMem_written r')
  · intro ⟨hnil, hvalue⟩
    exact ⟨a, b, r, by rw [hnil, List.append_nil], hvalue⟩

/-! ## Runs -/

/-- A number in which a digit is sought, but which no other follows. -/
theorem rejects_last_number {q : Phase} {leave next : Bool → Phase}
    (hdigit : ∀ d, plan.rules q (digit d) = some ⟨leave d, "x", .right⟩)
    (hleave : ∀ d, plan.table (leave d) = leaveTable (leave d) (next d))
    (hend : plan.rules q "_" = some ⟨.reject, "_", .right⟩) (ds : List Bool) (left : List Symbol) :
    ∃ d, (around "_" q left (ds.map digit)).trajectory plan.rules (ds.length + 1) = some d ∧
      d.state = .reject := by
  cases ds with
  | nil =>
    rw [List.map_nil, ← around_append_blank]
    exact ⟨_, trajectory_right hend left [], rfl⟩
  | cons d ds =>
    rw [List.length_cons, Nat.add_comm]
    exact ⟨_, trajectory_trans (trajectory_right (hdigit d) left _)
      (trajectory_leave_end (hleave d) ds ("x" :: left)), rfl⟩

/-- A number on its own is rejected at its end. -/
theorem rejects_one_number (ds : List Bool) :
    ∃ d, (around "_" (.column 0) [] (ds.map digit)).trajectory plan.rules (ds.length + 1) = some d ∧
      d.state = .reject := by
  have hdigit : ∀ d, plan.rules (.column 0) (digit d) =
      some ⟨.leaveFirst (plus 0 d), "x", .right⟩ := lookup_onDigits _ _
  exact rejects_last_number hdigit (fun _ => rfl) rfl ds []

/-- Two numbers are rejected at the end of the second one. -/
theorem rejects_two_numbers (ds ds' : List Bool) :
    ∃ d, (around "_" (.column 0) [] (ds.map digit ++ "#" :: ds'.map digit)).trajectory plan.rules
      (ds.length + 1 + (ds'.length + 1)) = some d ∧ d.state = .reject := by
  have hq := table_atSecond 0 ⟨0, ds⟩ 0
  obtain ⟨d, hd, hreject⟩ := rejects_last_number
    (fun d => plan.rules_of_table hq (lookup_mark_onDigits _ _ _ d)) (fun _ => rfl)
    (plan.rules_of_table hq rfl) ds' ("#" :: (Operand.next ⟨0, ds⟩).cells.reverse)
  exact ⟨d, trajectory_trans (trajectory_first 0 ⟨0, ds⟩ _) hd, hreject⟩

/-- Past the result there is an empty cell or another sign. -/
theorem exists_tail {rest : List Char} (hrest : rest = [] ∨ ∃ more, rest = '#' :: more) :
    ∃ s right, (s = "_" ∨ s = "#") ∧ (s = "_" ↔ rest = []) ∧ ∀ (q : Phase) (cells : List Symbol),
      around "_" q [] (cells ++ rest.map String.singleton) =
        around "_" q [] (cells ++ s :: right) := by
  rcases hrest with rfl | ⟨more, rfl⟩
  · refine ⟨"_", [], .inl rfl, ⟨fun _ => rfl, fun _ => rfl⟩, fun q cells => ?_⟩
    rw [List.map_nil, List.append_nil, around_append_blank]
  · exact ⟨"#", more.map String.singleton, .inr rfl, by simp, fun q cells => rfl⟩

/-- Three numbers are told apart by whether they add up and nothing follows. -/
theorem decides_three_numbers (a b r : List Bool) {rest : List Char}
    (hrest : rest = [] ∨ ∃ more, rest = '#' :: more) :
    ∃ k d, k ≤ 2 * (a.length + b.length + r.length + 3) ^ 2 ∧
      (around "_" (.column 0) [] (a.map digit ++ "#" :: (b.map digit ++ "#" ::
        (r.map digit ++ rest.map String.singleton)))).trajectory plan.rules k = some d ∧
      (rest = [] ∧ value a + value b = value r → d.state = .accept) ∧
      (¬ (rest = [] ∧ value a + value b = value r) → d.state = .reject) := by
  obtain ⟨s, right, hs, hblank, htail⟩ := exists_tail hrest
  obtain ⟨k, d, hk, hd, haccept, hreject⟩ :=
    decides_columns hs right 0 ⟨0, a⟩ ⟨0, b⟩ ⟨0, r⟩
  have hadds : Adds 0 ⟨0, a⟩ ⟨0, b⟩ ⟨0, r⟩ ↔ value a + value b = value r := by
    show 0 + value a + value b = value r ↔ _
    rw [Nat.zero_add]
  -- There is one column more than digits, and each takes so many steps at most.
  have hbound : (a.length + b.length + r.length + 1) * columnBound ⟨0, a⟩ ⟨0, b⟩ ⟨0, r⟩ ≤
      2 * (a.length + b.length + r.length + 3) ^ 2 := by
    rw [columnBound, Operand.length_cells, Operand.length_cells, Operand.length_cells,
      Nat.zero_add, Nat.zero_add, Nat.zero_add, Nat.mul_left_comm, Nat.pow_two]
    exact Nat.mul_le_mul_left 2 (Nat.mul_le_mul_right _ (by omega))
  have hcells := htail (.column 0) (a.map digit ++ "#" :: (b.map digit ++ "#" :: r.map digit))
  simp only [List.append_assoc, List.cons_append] at hcells
  rw [hblank, hadds] at haccept hreject
  rw [hcells]
  exact ⟨k, d, hk.trans hbound, hd, haccept, hreject⟩

/-- Words with too few signs are rejected on the way to the third number. -/
theorem decides_word {cs : List Char} (h : Over ['0', '1', '#'] cs) :
    ∃ k d, k ≤ 2 * (cs.length + 1) ^ 2 ∧
      (around "_" (.column 0) [] (cs.map String.singleton)).trajectory plan.rules k = some d ∧
      (IsSum cs → d.state = .accept) ∧ (¬ IsSum cs → d.state = .reject) := by
  have hlinear : cs.length + 1 ≤ 2 * (cs.length + 1) ^ 2 := by
    have hpow := Nat.le_self_pow (show 2 ≠ 0 by decide) (cs.length + 1)
    omega
  -- The word is cut at its hashes: one number, two numbers, or three with more behind them perhaps.
  obtain ⟨a, rest, rfl, rfl | ⟨rest, rfl⟩⟩ := exists_written h
  · obtain ⟨d, hd, hreject⟩ := rejects_one_number a
    rw [List.append_nil, length_written] at hlinear
    rw [List.append_nil, length_written, symbols_written]
    exact ⟨_, d, hlinear, hd, fun hsum => absurd hsum (not_isSum_written a), fun _ => hreject⟩
  have hrest : Over ['0', '1', '#'] rest := (Library.over_cons_iff.mp h.of_append).2
  obtain ⟨b, rest, rfl, rfl | ⟨rest, rfl⟩⟩ := exists_written hrest
  · obtain ⟨d, hd, hreject⟩ := rejects_two_numbers a b
    rw [List.append_nil] at hlinear ⊢
    rw [List.map_append, List.map_cons, symbols_written, symbols_written]
    refine ⟨_, d, le_trans ?_ hlinear, hd, fun hsum => absurd hsum (not_isSum_of_one_hash a b),
      fun _ => hreject⟩
    rw [List.length_append, List.length_cons, length_written, length_written]
    omega
  have hrest' : Over ['0', '1', '#'] rest := (Library.over_cons_iff.mp hrest.of_append).2
  obtain ⟨r, rest, rfl, hend⟩ := exists_written hrest'
  obtain ⟨k, d, hk, hd, haccept, hreject⟩ := decides_three_numbers a b r hend
  rw [isSum_iff a b r hend]
  simp only [List.map_append, List.map_cons, symbols_written]
  refine ⟨k, d, hk.trans ?_, hd, haccept, hreject⟩
  simp only [List.length_append, List.length_cons, length_written]
  exact Nat.mul_le_mul_left 2 (Nat.pow_le_pow_left (by omega) 2)

/-- On words over digits and signs the machine decides whether they consist of two numbers and their
sum, if the budget suffices for words of that length. -/
theorem decides_sums {word : String} {budget : Nat} (hword : Over ['0', '1', '#'] word.toList)
    (hlow : 2 * (word.length + 1) ^ 2 ≤ budget) (hhigh : budget ≤ 2 ^ 63 - 1) :
    ∃ m, Library.machineOn "binary-addition" budget word = .ok m ∧
      (m.run.1 = .ok .accepted ↔ IsSum word.toList) ∧
      (m.run.1 = .ok .rejected ↔ ¬ IsSum word.toList) := by
  have htext : Library.texts.find? (·.1 = "binary-addition") =
      some ("binary-addition", Library.additionText) := rfl
  obtain ⟨c, hc, hm⟩ := Library.exists_machineOn htext plan_writtenIn hhigh word
  obtain ⟨k, d, hk, hd, haccept, hreject⟩ := decides_word hword
  have hcontent : (Machine.symbolsOfWord word).toList = word.toList.map String.singleton := rfl
  rw [← hcontent, ← initial_eq_around] at hd
  -- The budget does for the steps that the word takes.
  have hsteps : k ≤ budget + 1 := by
    rw [String.length_toList] at hk
    omega
  refine ⟨_, hm, ?_⟩
  by_cases hsum : IsSum word.toList
  · rw [(hc.runsTo_accepted { budget } hd (haccept hsum) hsteps).answer]
    exact ⟨iff_of_true rfl hsum, iff_of_false (fun h => nomatch h) (not_not_intro hsum)⟩
  · rw [(hc.runsTo_rejected { budget } hd (hreject hsum) hsteps).answer]
    exact ⟨iff_of_false (fun h => nomatch h) hsum, iff_of_true rfl hsum⟩

theorem decides_sums_of_one_and_one :
    (∃ m, Library.machineOn "binary-addition" 200 "1#10#01" = .ok m ∧ m.run.1 = .ok .accepted) ∧
      ∃ m, Library.machineOn "binary-addition" 200 "1#1#11" = .ok m ∧ m.run.1 = .ok .rejected := by
  constructor
  · obtain ⟨m, hm, haccepted, -⟩ :=
      @decides_sums "1#10#01" 200 (by decide) (by decide) (by decide)
    exact ⟨m, hm, haccepted.mpr ⟨[true], [true, false], [false, true], by decide, by decide⟩⟩
  · obtain ⟨m, hm, -, hrejected⟩ :=
      @decides_sums "1#1#11" 200 (by decide) (by decide) (by decide)
    have hsum : ¬ IsSum "1#1#11".toList := fun h =>
      absurd ((isSum_iff [true] [true] [true, true] (.inl rfl)).mp h).2 (by decide)
    exact ⟨m, hm, hrejected.mpr hsum⟩

end SingleTape.Addition
