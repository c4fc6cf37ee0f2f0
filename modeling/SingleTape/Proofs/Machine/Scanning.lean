import Mathlib.Data.List.Induction
import SingleTape.Proofs.Machine.Textbook

/-!
# Scanning a tape

Configurations by what is on both sides of the head, for following a machine over a tape whose
content is not known. A step shifts one symbol from side to side, a scan as many as there are.
-/

namespace SingleTape.Textbook.Config

variable {σ : Type}

/-- The symbols to the left of the head, the nearest first, and those from the head on. All other
cells are empty. -/
def around (blank : Symbol) (q : σ) (left right : List Symbol) : Config σ where
  state := q
  head := left.length
  cell i := (left.reverse ++ right).getD i blank

/-- The same cells, with the head one further to the left, if there is a cell there. -/
def before (blank : Symbol) (q : σ) (left right : List Symbol) : Config σ where
  state := q
  head := left.length - 1
  cell i := (left.reverse ++ right).getD i blank

variable {rules : Rules σ} {blank : Symbol} {q q' : σ} {s t : Symbol} {left right : List Symbol}

/-- A run begins with nothing to the left of the head and the content from there on. -/
theorem initial_eq_around (start : σ) (content : Array Symbol) (blank : Symbol) :
    initial start content blank = around blank start [] content.toList := by
  unfold initial around
  congr 1
  funext i
  rw [Array.getD_eq_getD_getElem?, List.getD_eq_getElem?_getD, List.reverse_nil, List.nil_append,
    Array.getElem?_toList]

/-- An empty cell at the end of those that are listed makes no difference. -/
theorem around_append_blank (q : σ) (left right : List Symbol) :
    around blank q left (right ++ [blank]) = around blank q left right := by
  unfold around
  congr 1
  funext i
  rw [← List.append_assoc, List.getD_eq_getElem?_getD, List.getD_eq_getElem?_getD,
    List.getElem?_append]
  split
  · rfl
  · rename_i h
    rw [List.getElem?_eq_none (Nat.le_of_not_lt h), List.getElem?_singleton]
    split <;> rfl

/-- With a symbol to the left of it, the head goes to that symbol. -/
theorem before_cons (q : σ) (left right : List Symbol) :
    before blank q (s :: left) right = around blank q left (s :: right) := by
  unfold before around
  rw [List.reverse_cons, List.append_assoc]
  rfl

/-- A tape on which nothing but the empty symbol stands. -/
theorem cell_around_eq_blank (q : σ) (hleft : ∀ s ∈ left, s = blank)
    (hright : ∀ s ∈ right, s = blank) (i : Nat) : (around blank q left right).cell i = blank := by
  show (left.reverse ++ right).getD i blank = blank
  rw [List.getD_eq_getElem?_getD]
  cases hi : (left.reverse ++ right)[i]? with
  | none => rfl
  | some s =>
    rcases List.mem_append.mp (List.mem_of_getElem? hi) with h | h
    · exact hleft s (List.mem_reverse.mp h)
    · exact hright s h

theorem update_getD_append (left right : List Symbol) (s t blank : Symbol) :
    Function.update (fun i => (left ++ s :: right).getD i blank) left.length t =
      fun i => (left ++ t :: right).getD i blank := by
  funext i
  rw [Function.update_apply, List.getD_eq_getElem?_getD, List.getD_eq_getElem?_getD]
  by_cases hi : i = left.length
  · rw [if_pos hi, hi]
    simp
  · rw [if_neg hi, List.getElem?_append, List.getElem?_append]
    split
    · rfl
    · obtain ⟨j, hj⟩ : ∃ j, i - left.length = j + 1 := ⟨i - left.length - 1, by omega⟩
      rw [hj, List.getElem?_cons_succ, List.getElem?_cons_succ]

/-- The head is at the first symbol of those to its right. -/
theorem cell_around_head (q : σ) (left right : List Symbol) :
    (around blank q left (s :: right)).symbol .scanned = s := by
  show (left.reverse ++ s :: right).getD left.length blank = s
  rw [← List.length_reverse, List.getD_eq_getElem?_getD]
  simp

/-- A rule writes over the symbol under the head and moves on from there. -/
theorem follow_around (q : σ) (left right : List Symbol) (r : Rule σ) :
    (around blank q left (s :: right)).follow r =
      { state := r.next
        head := moved left.length r.direction
        cell := fun i => (left.reverse ++ r.write :: right).getD i blank } := by
  unfold follow around
  rw [← List.length_reverse, update_getD_append]

/-! ## Steps -/

theorem trajectory_trans {c d e : Config σ} {j k : Nat} (hj : c.trajectory rules j = some d)
    (hk : d.trajectory rules k = some e) : c.trajectory rules (j + k) = some e := by
  rw [trajectory_add, hj, Option.bind_some, hk]

/-- One rule that fits is a trajectory of one step. -/
theorem trajectory_one {c : Config σ} {r : Rule σ}
    (h : rules c.state (c.symbol .scanned) = some r) :
    c.trajectory rules 1 = some (c.follow r) := by
  show c.after rules [.scanned] = _
  rw [after_singleton, step, h]
  rfl

/-- A step to the right takes the symbol it writes over to the left side. -/
theorem trajectory_right (h : rules q s = some ⟨q', t, .right⟩) (left right : List Symbol) :
    (around blank q left (s :: right)).trajectory rules 1 =
      some (around blank q' (t :: left) right) := by
  rw [trajectory_one (by rw [cell_around_head]; exact h), follow_around]
  unfold around
  rw [List.reverse_cons, List.append_assoc]
  cases left <;> rfl

/-- A step to the left leaves the symbol it writes on the right side. -/
theorem trajectory_left (h : rules q s = some ⟨q', t, .left⟩) (left right : List Symbol) :
    (around blank q left (s :: right)).trajectory rules 1 =
      some (before blank q' left (t :: right)) := by
  rw [trajectory_one (by rw [cell_around_head]; exact h), follow_around]
  cases left <;> rfl

/-! ## Scans -/

/-- A state that copies all of these symbols and goes right comes out behind them. -/
theorem trajectory_scan_right (blank : Symbol) {scanned : List Symbol}
    (h : ∀ s ∈ scanned, rules q s = some ⟨q, s, .right⟩) (left right : List Symbol) :
    (around blank q left (scanned ++ right)).trajectory rules scanned.length =
      some (around blank q (scanned.reverse ++ left) right) := by
  induction scanned generalizing left with
  | nil => rfl
  | cons s scanned ih =>
    have hrest := ih (fun u hu => h u (List.mem_cons_of_mem s hu)) (s :: left)
    rw [List.length_cons, Nat.add_comm, List.reverse_cons, List.append_assoc]
    exact trajectory_trans (trajectory_right (h s List.mem_cons_self) left _) hrest

/-- A state that copies all of these symbols and goes left comes out before them. -/
theorem trajectory_scan_left (blank : Symbol) {scanned : List Symbol}
    (h : ∀ s ∈ scanned, rules q s = some ⟨q, s, .left⟩) (left right : List Symbol) :
    (before blank q (scanned.reverse ++ left) right).trajectory rules scanned.length =
      some (before blank q left (scanned ++ right)) := by
  induction scanned using List.reverseRecOn generalizing right with
  | nil => rfl
  | append_singleton scanned s ih =>
    have hrest := ih (fun u hu => h u (List.mem_append_left [s] hu)) (s :: right)
    have hs := h s (List.mem_append_right scanned (List.mem_singleton_self s))
    rw [List.length_append, List.length_singleton, Nat.add_comm, List.reverse_append,
      List.append_assoc, List.append_assoc]
    show (before blank q (s :: (scanned.reverse ++ left)) right).trajectory rules _ = _
    rw [before_cons]
    exact trajectory_trans (trajectory_left hs _ right) hrest

theorem trajectory_scan_right_map {α : Type} (blank : Symbol) {f : α → Symbol}
    (h : ∀ x, rules q (f x) = some ⟨q, f x, .right⟩) (xs : List α) (left right : List Symbol) :
    (around blank q left (xs.map f ++ right)).trajectory rules xs.length =
      some (around blank q ((xs.map f).reverse ++ left) right) := by
  have hscan : ∀ s ∈ xs.map f, rules q s = some ⟨q, s, .right⟩ := by
    intro s hs
    obtain ⟨x, -, rfl⟩ := List.mem_map.mp hs
    exact h x
  rw [← List.length_map f]
  exact trajectory_scan_right blank hscan left right

theorem trajectory_scan_left_map {α : Type} (blank : Symbol) {f : α → Symbol}
    (h : ∀ x, rules q (f x) = some ⟨q, f x, .left⟩) (xs : List α) (left right : List Symbol) :
    (before blank q ((xs.map f).reverse ++ left) right).trajectory rules xs.length =
      some (before blank q left (xs.map f ++ right)) := by
  have hscan : ∀ s ∈ xs.map f, rules q s = some ⟨q, s, .left⟩ := by
    intro s hs
    obtain ⟨x, -, rfl⟩ := List.mem_map.mp hs
    exact h x
  rw [← List.length_map f]
  exact trajectory_scan_left blank hscan left right

end SingleTape.Textbook.Config
