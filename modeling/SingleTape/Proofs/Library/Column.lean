import SingleTape.Proofs.Library.AdditionPlan
import SingleTape.Proofs.Machine.Scanning

/-!
# Columns of a sum

What the machine for sums does from one column to the next, in three legs: over both operands to the
result, at the result, and back to the first operand. Where the digits do not agree it ends at the
result, and so it does where none is left.
-/

namespace SingleTape.Addition

open Textbook (Rule Config)
open Textbook.Config

/-! ## Operands -/

/-- An operand of which some digits have been taken. -/
structure Operand where
  taken : Nat
  rest : List Bool

namespace Operand

def cells (o : Operand) : List Symbol := List.replicate o.taken "x" ++ o.rest.map digit

/-- The digit in the column, which is zero past the last one. -/
def bit (o : Operand) : Bool := o.rest.headD false

/-- What is left when the digit in the column, if there is one, has been taken. -/
def next (o : Operand) : Operand :=
  match o.rest with
  | [] => o
  | _ :: rest => ⟨o.taken + 1, rest⟩

theorem rest_next (o : Operand) : o.next.rest = o.rest.tail := by
  obtain ⟨k, rest⟩ := o
  cases rest <;> rfl

theorem length_cells (o : Operand) : o.cells.length = o.taken + o.rest.length := by
  rw [cells, List.length_append, List.length_replicate, List.length_map]

/-- Marking a digit keeps the length of an operand. -/
theorem length_cells_next (o : Operand) : o.next.cells.length = o.cells.length := by
  rw [length_cells, length_cells]
  obtain ⟨k, rest⟩ := o
  cases rest with
  | nil => rfl
  | cons d rest =>
    show k + 1 + rest.length = k + (rest.length + 1)
    omega

def after (o : Operand) : List Symbol :=
  match o.rest with
  | [] => []
  | _ :: rest => "x" :: rest.map digit

/-- An operand after a column has one mark more, unless it is used up. -/
theorem cells_next (o : Operand) : o.next.cells = List.replicate o.taken "x" ++ o.after := by
  obtain ⟨k, rest⟩ := o
  cases rest with
  | nil => rfl
  | cons d rest =>
    show List.replicate (k + 1) "x" ++ rest.map digit = _
    rw [List.replicate_succ', List.append_assoc]
    rfl

theorem reverse_cells_next (o : Operand) :
    o.next.cells.reverse = o.after.reverse ++ List.replicate o.taken "x" := by
  rw [cells_next, List.reverse_append, List.reverse_replicate]

/-- An operand with nothing taken after a column is an empty one. -/
theorem rest_next_of_taken_eq_zero (o : Operand) (h : o.next.taken = 0) : o.next.rest = [] := by
  obtain ⟨k, rest⟩ := o
  cases rest with
  | nil => rfl
  | cons d rest => cases h

end Operand

/-! ## Over an operand -/

variable {q next : Phase}

theorem lookup_onDigits (f : Bool → Rule Phase) (more : List (Symbol × Rule Phase)) (d : Bool) :
    (onDigits f ++ more).lookup (digit d) = some (f d) := by
  cases d <;> rfl

theorem lookup_mark_onDigits (f : Bool → Rule Phase) (r : Rule Phase)
    (more : List (Symbol × Rule Phase)) (d : Bool) :
    (("x", r) :: onDigits f ++ more).lookup (digit d) = some (f d) := by
  cases d <;> rfl

theorem trajectory_marks (hmark : plan.rules q "x" = some ⟨q, "x", .right⟩) (k : Nat)
    (left right : List Symbol) :
    (around "_" q left (List.replicate k "x" ++ right)).trajectory plan.rules k =
      some (around "_" q (List.replicate k "x" ++ left) right) := by
  have hscan :=
    trajectory_scan_right_map "_" (fun _ : Unit => hmark) (List.replicate k ()) left right
  rwa [List.map_replicate, List.reverse_replicate, List.length_replicate] at hscan

theorem rules_leave_digit (hq : plan.table q = leaveTable q next) (d : Bool) :
    plan.rules q (digit d) = some ⟨q, digit d, .right⟩ :=
  plan.rules_of_table hq (lookup_onDigits _ _ d)

/-- Leaves the rest of an operand that another follows. -/
theorem trajectory_leave (hq : plan.table q = leaveTable q next) (ds : List Bool)
    (left right : List Symbol) :
    (around "_" q left (ds.map digit ++ "#" :: right)).trajectory plan.rules (ds.length + 1) =
      some (around "_" next ("#" :: ((ds.map digit).reverse ++ left)) right) := by
  have hdigits := trajectory_scan_right_map "_" (rules_leave_digit hq) ds left ("#" :: right)
  have hnext : plan.rules q "#" = some ⟨next, "#", .right⟩ := plan.rules_of_table hq rfl
  exact trajectory_trans hdigits (trajectory_right hnext _ right)

/-- Leaves the rest of one that is the last. -/
theorem trajectory_leave_end (hq : plan.table q = leaveTable q next) (ds : List Bool)
    (left : List Symbol) :
    (around "_" q left (ds.map digit)).trajectory plan.rules (ds.length + 1) =
      some (around "_" .reject ("_" :: ((ds.map digit).reverse ++ left)) []) := by
  have hdigits := trajectory_scan_right_map "_" (rules_leave_digit hq) ds left ["_"]
  have hend : plan.rules q "_" = some ⟨.reject, "_", .right⟩ := plan.rules_of_table hq rfl
  rw [← around_append_blank]
  exact trajectory_trans hdigits (trajectory_right hend _ [])

/-! ## To the result -/

def sum (c : Fin 2) (a b : Operand) : Fin 4 := plus (plus c a.bit) b.bit

def atSecond (c : Fin 2) (a : Operand) : Phase :=
  match a.rest with
  | [] => .secondLast c
  | _ :: _ => .second (plus c a.bit)

def atThird (c : Fin 2) (a b : Operand) : Phase :=
  match a.rest, b.rest with
  | [], [] => .thirdLast c
  | _, _ => .third (sum c a b)

def done (c : Fin 2) (a b : Operand) : Phase :=
  match a.rest, b.rest with
  | [], [] => .accept
  | _, _ => .backThird (half (sum c a b))

theorem table_atSecond (c : Fin 2) (a : Operand) (j : Nat) :
    plan.table (atSecond c a) =
      secondTable (atSecond c a) (plus c a.bit) (atThird c a ⟨j, []⟩) := by
  obtain ⟨i, rest⟩ := a
  cases rest <;> rfl

theorem table_atThird (c : Fin 2) (a b : Operand) :
    plan.table (atThird c a b) = thirdTable (atThird c a b) (sum c a b) (done c a b) := by
  obtain ⟨i, rest⟩ := a
  obtain ⟨j, rest'⟩ := b
  cases rest <;> cases rest' <;> rfl

theorem atThird_of_cons (c : Fin 2) (a : Operand) (j : Nat) (d : Bool) (ds : List Bool) :
    atThird c a ⟨j, d :: ds⟩ = .third (plus (plus c a.bit) d) := by
  obtain ⟨i, rest⟩ := a
  cases rest <;> rfl

/-- A column begins with the first operand: its digit is marked, and the head goes on to the second
one. -/
theorem trajectory_first (c : Fin 2) (a : Operand) (right : List Symbol) :
    (around "_" (.column c) (List.replicate a.taken "x")
      (a.rest.map digit ++ "#" :: right)).trajectory plan.rules (a.rest.length + 1) =
      some (around "_" (atSecond c a) ("#" :: a.next.cells.reverse) right) := by
  obtain ⟨k, ds⟩ := a
  cases ds with
  | nil =>
    rw [Operand.reverse_cells_next]
    exact trajectory_right rfl _ right
  | cons d ds =>
    have htake : (around "_" (.column c) (List.replicate k "x")
        (digit d :: (ds.map digit ++ "#" :: right))).trajectory plan.rules 1 =
        some (around "_" (.leaveFirst (plus c d)) ("x" :: List.replicate k "x")
          (ds.map digit ++ "#" :: right)) := trajectory_right (lookup_onDigits _ _ d) _ _
    have hleave := trajectory_leave (show plan.table (.leaveFirst (plus c d)) = _ from rfl) ds
      ("x" :: List.replicate k "x") right
    rw [Operand.reverse_cells_next, List.length_cons, Nat.add_comm (ds.length + 1),
      Operand.after, List.reverse_cons, List.append_assoc]
    exact trajectory_trans htake hleave

/-- In the second operand the digit is marked and added, and the head goes on to the result. -/
theorem trajectory_second (c : Fin 2) (a b : Operand) (left right : List Symbol) :
    (around "_" (atSecond c a) left (b.cells ++ "#" :: right)).trajectory plan.rules
      (b.cells.length + 1) =
      some (around "_" (atThird c a b) ("#" :: (b.next.cells.reverse ++ left)) right) := by
  obtain ⟨k, ds⟩ := b
  have hq := table_atSecond c a k
  have hmark : plan.rules (atSecond c a) "x" = some ⟨atSecond c a, "x", .right⟩ :=
    plan.rules_of_table hq rfl
  have hmarks := trajectory_marks hmark k left (ds.map digit ++ "#" :: right)
  rw [Operand.length_cells, Operand.cells, List.append_assoc, Nat.add_assoc]
  -- Past its last digit the operand counts as zero, and the hash behind it is next.
  cases ds with
  | nil =>
    have hnext : plan.rules (atSecond c a) "#" = some ⟨atThird c a ⟨k, []⟩, "#", .right⟩ :=
      plan.rules_of_table hq rfl
    rw [Operand.reverse_cells_next]
    exact trajectory_trans hmarks (trajectory_right hnext _ right)
  | cons d ds =>
    have hdigit : plan.rules (atSecond c a) (digit d) =
        some ⟨.leaveSecond (plus (plus c a.bit) d), "x", .right⟩ :=
      plan.rules_of_table hq (lookup_mark_onDigits _ _ _ d)
    have hleave := trajectory_leave
      (show plan.table (.leaveSecond (plus (plus c a.bit) d)) = _ from rfl) ds
      ("x" :: (List.replicate k "x" ++ left)) right
    rw [Operand.reverse_cells_next, atThird_of_cons, List.length_cons,
      Nat.add_comm (ds.length + 1), Operand.after, List.reverse_cons, List.append_assoc,
      List.append_assoc]
    exact trajectory_trans hmarks (trajectory_trans (trajectory_right hdigit _ _) hleave)

/-- Both operands together. -/
theorem trajectory_to_third (c : Fin 2) (a b : Operand) (right : List Symbol) :
    (around "_" (.column c) (List.replicate a.taken "x")
      (a.rest.map digit ++ "#" :: (b.cells ++ "#" :: right))).trajectory plan.rules
      (a.rest.length + 1 + (b.cells.length + 1)) =
      some (around "_" (atThird c a b)
        ("#" :: (b.next.cells.reverse ++ "#" :: a.next.cells.reverse)) right) :=
  trajectory_trans (trajectory_first c a _) (trajectory_second c a b _ right)

/-! ## At the result -/

/-- The digit of the result is that of the sum. Past the last one it is zero, unless something other
than an empty cell follows. -/
def Agrees (sum : Fin 4) (r : Operand) (s : Symbol) : Prop :=
  r.bit = parity sum ∧ (r.rest = [] → s = "_")

section Result

variable {t : Fin 4} {q p : Phase} (hq : plan.table q = thirdTable q t p)

include hq

theorem trajectory_marks_third (k : Nat) (left right : List Symbol) :
    (around "_" q left (List.replicate k "x" ++ right)).trajectory plan.rules k =
      some (around "_" q (List.replicate k "x" ++ left) right) :=
  trajectory_marks (plan.rules_of_table hq rfl) k left right

theorem rules_third_digit (d : Bool) :
    plan.rules q (digit d) = some (if d = parity t then ⟨.backThird (half t), "x", .left⟩
      else ⟨.reject, digit d, .left⟩) :=
  plan.rules_of_table hq (lookup_mark_onDigits _ _ _ d)

theorem rules_third_blank :
    plan.rules q "_" = some ⟨if parity t then .reject else p, "_", .left⟩ :=
  plan.rules_of_table hq rfl

/-- With the right digit the head turns back, or the machine accepts if nothing is left. -/
theorem trajectory_agree {r : Operand} {s : Symbol} (h : Agrees t r s) (left right : List Symbol) :
    (around "_" q left (r.cells ++ s :: right)).trajectory plan.rules (r.taken + 1) =
      some (before "_" (if r.rest = [] then p else .backThird (half t))
        (List.replicate r.taken "x" ++ left) (r.after ++ s :: right)) := by
  obtain ⟨k, ds⟩ := r
  obtain ⟨hbit, hs⟩ := h
  have hmarks := trajectory_marks_third hq k left (ds.map digit ++ s :: right)
  rw [Operand.cells, List.append_assoc]
  cases ds with
  | nil =>
    obtain rfl := hs rfl
    have hdone : plan.rules q "_" = some ⟨p, "_", .left⟩ := by
      rw [rules_third_blank hq, ← hbit]
      rfl
    exact trajectory_trans hmarks (trajectory_left hdone _ right)
  | cons d ds =>
    have hdigit : plan.rules q (digit d) = some ⟨.backThird (half t), "x", .left⟩ := by
      rw [rules_third_digit hq, if_pos (show d = parity t from hbit)]
    exact trajectory_trans hmarks (trajectory_left hdigit _ _)

/-- With a wrong digit the word is rejected. -/
theorem trajectory_disagree {r : Operand} {s : Symbol} (h : ¬ Agrees t r s) (hs : s = "_" ∨ s = "#")
    (left right : List Symbol) :
    ∃ d, (around "_" q left (r.cells ++ s :: right)).trajectory plan.rules (r.taken + 1) = some d ∧
      d.state = .reject := by
  obtain ⟨k, ds⟩ := r
  have hmarks := trajectory_marks_third hq k left (ds.map digit ++ s :: right)
  rw [Operand.cells, List.append_assoc]
  -- Past its last digit the result disagrees with an odd sum, or because something follows it.
  cases ds with
  | nil =>
    have hreject : plan.rules q s = some ⟨.reject, s, .left⟩ := by
      rcases hs with rfl | rfl
      · have hodd : parity t = true := by
          by_contra hodd
          exact h ⟨(Bool.eq_false_of_not_eq_true hodd).symm, fun _ => rfl⟩
        rw [rules_third_blank hq, hodd]
        rfl
      · exact plan.rules_of_table hq rfl
    exact ⟨_, trajectory_trans hmarks (trajectory_left hreject _ right), rfl⟩
  | cons d ds =>
    have hdigit : plan.rules q (digit d) = some ⟨.reject, digit d, .left⟩ := by
      rw [rules_third_digit hq, if_neg]
      exact fun hd => h ⟨hd, fun hnil => absurd hnil (List.cons_ne_nil d ds)⟩
    exact ⟨_, trajectory_trans hmarks (trajectory_left hdigit _ _), rfl⟩

end Result

/-! ## Back -/

/-- The way back over an operand passes all its cells. -/
theorem trajectory_back (hq : plan.table q = backTable q next) (o : Operand)
    (left right : List Symbol) :
    (before "_" q (o.cells.reverse ++ "#" :: left) right).trajectory plan.rules
      (o.cells.length + 1) = some (before "_" next left ("#" :: (o.cells ++ right))) := by
  have hscan : ∀ s ∈ o.cells, plan.rules q s = some ⟨q, s, .left⟩ := by
    intro s hs
    rcases List.mem_append.mp hs with h | h
    · rw [List.eq_of_mem_replicate h]
      exact plan.rules_of_table hq rfl
    · obtain ⟨d, -, rfl⟩ := List.mem_map.mp h
      exact plan.rules_of_table hq (lookup_mark_onDigits _ _ _ d)
  have hnext : plan.rules q "#" = some ⟨next, "#", .left⟩ := plan.rules_of_table hq rfl
  have hback := trajectory_scan_left "_" hscan ("#" :: left) right
  rw [before_cons] at hback
  exact trajectory_trans hback (trajectory_left hnext left _)

/-- The next digit of the first operand stands after the last mark, or in the first cell. -/
theorem trajectory_back_first (c : Fin 2) (o : Operand) (ho : o.taken = 0 → o.rest = [])
    (right : List Symbol) :
    (before "_" (.backFirst c) o.cells.reverse ("#" :: right)).trajectory plan.rules
      (o.rest.length + 1) =
      some (around "_" (.column c) (List.replicate o.taken "x")
        (o.rest.map digit ++ "#" :: right)) := by
  obtain ⟨k, ds⟩ := o
  cases k with
  | zero =>
    obtain rfl : ds = [] := ho rfl
    exact trajectory_left rfl [] right
  | succ k =>
    have hdigit : ∀ d, plan.rules (.backFirst c) (digit d) = some ⟨.backFirst c, digit d, .left⟩ :=
      lookup_onDigits _ _
    have hback := trajectory_scan_left_map "_" hdigit ds (List.replicate (k + 1) "x") ("#" :: right)
    rw [List.replicate_succ, before_cons] at hback
    rw [Operand.cells, List.reverse_append, List.reverse_replicate]
    exact trajectory_trans hback (trajectory_right rfl _ _)

/-! ## A column -/

/-- The tape between two columns, with the head on the next digit of the first operand. -/
def between (c : Fin 2) (a b r : Operand) (s : Symbol) (right : List Symbol) : Config Phase :=
  around "_" (.column c) (List.replicate a.taken "x")
    (a.rest.map digit ++ "#" :: (b.cells ++ "#" :: (r.cells ++ s :: right)))

def columnBound (a b r : Operand) : Nat :=
  2 * (a.cells.length + b.cells.length + r.cells.length + 3)

variable {c : Fin 2} {a b r : Operand} {s : Symbol}

theorem done_of_rest_ne_nil (h : ¬ (a.rest = [] ∧ b.rest = [])) :
    done c a b = .backThird (half (sum c a b)) := by
  obtain ⟨i, ds⟩ := a
  obtain ⟨j, ds'⟩ := b
  cases ds with
  | nil =>
    cases ds' with
    | nil => exact absurd ⟨rfl, rfl⟩ h
    | cons d' ds' => rfl
  | cons d ds => rfl

/-- A column with a wrong digit rejects. -/
theorem column_reject (h : ¬ Agrees (sum c a b) r s) (hs : s = "_" ∨ s = "#")
    (right : List Symbol) :
    ∃ k d, k ≤ columnBound a b r ∧ (between c a b r s right).trajectory plan.rules k = some d ∧
      d.state = .reject := by
  obtain ⟨d, hd, hreject⟩ := trajectory_disagree (table_atThird c a b) h hs _ right
  refine ⟨_, d, ?_, trajectory_trans (trajectory_to_third c a b _) hd, hreject⟩
  rw [columnBound, a.length_cells, r.length_cells]
  omega

/-- The last column accepts when its digit is right. -/
theorem column_accept (ha : a.rest = []) (hb : b.rest = []) (hr : r.rest = [])
    (h : Agrees (sum c a b) r s) (right : List Symbol) :
    ∃ k d, k ≤ columnBound a b r ∧ (between c a b r s right).trajectory plan.rules k = some d ∧
      d.state = .accept := by
  have hdone : done c a b = .accept := by
    rw [done, ha, hb]
  have hagree := trajectory_agree (table_atThird c a b) h
    ("#" :: (b.next.cells.reverse ++ "#" :: a.next.cells.reverse)) right
  rw [if_pos hr, hdone] at hagree
  refine ⟨_, _, ?_, trajectory_trans (trajectory_to_third c a b _) hagree, rfl⟩
  rw [columnBound, a.length_cells, r.length_cells]
  omega

/-- Any other column with the right digit leads to the next one. -/
theorem column_next (hrest : ¬ (a.rest = [] ∧ b.rest = [] ∧ r.rest = []))
    (h : Agrees (sum c a b) r s) (right : List Symbol) :
    ∃ k, k ≤ columnBound a b r ∧ (between c a b r s right).trajectory plan.rules k =
      some (between (half (sum c a b)) a.next b.next r.next s right) := by
  have hagree := trajectory_agree (table_atThird c a b) h
    ("#" :: (b.next.cells.reverse ++ "#" :: a.next.cells.reverse)) right
  -- Some operand has digits left, so the machine goes back and does not accept.
  have hphase : (if r.rest = [] then done c a b else .backThird (half (sum c a b))) =
      .backThird (half (sum c a b)) := by
    by_cases hr : r.rest = []
    · rw [if_pos hr, done_of_rest_ne_nil fun hab => hrest ⟨hab.1, hab.2, hr⟩]
    · rw [if_neg hr]
  have hthird := trajectory_back (show plan.table (.backThird (half (sum c a b))) = _ from rfl)
    ⟨r.taken, []⟩ (b.next.cells.reverse ++ "#" :: a.next.cells.reverse) (r.after ++ s :: right)
  have hmarks : Operand.cells ⟨r.taken, []⟩ = List.replicate r.taken "x" := List.append_nil _
  rw [hmarks, List.reverse_replicate, List.length_replicate, ← List.append_assoc _ r.after,
    ← r.cells_next] at hthird
  -- Back over the second operand and the first one.
  have hsecond := trajectory_back (show plan.table (.backSecond (half (sum c a b))) = _ from rfl)
    b.next a.next.cells.reverse ("#" :: (r.next.cells ++ s :: right))
  have hfirst := trajectory_back_first (half (sum c a b)) a.next a.rest_next_of_taken_eq_zero
    (b.next.cells ++ "#" :: (r.next.cells ++ s :: right))
  rw [hphase] at hagree
  refine ⟨_, ?_, trajectory_trans (trajectory_to_third c a b _) (trajectory_trans hagree
    (trajectory_trans hthird (trajectory_trans hsecond hfirst)))⟩
  rw [columnBound, b.length_cells_next, a.rest_next, List.length_tail, a.length_cells,
    r.length_cells]
  omega

end SingleTape.Addition
