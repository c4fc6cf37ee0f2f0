import Mathlib.Logic.Function.Basic
import Mathlib.Tactic.ByContra
import SingleTape.Tape

/-!
# The textbook machine

A machine whose tape has a first cell and no last one, with no budget and no states to stop in. A
configuration is a state, a position, and what stands in each cell. The states may be anything:
handles of a graph, or names.
-/

namespace SingleTape.Textbook

structure Rule (σ : Type) where
  next : σ
  write : Symbol
  direction : Direction

abbrev Rules (σ : Type) := σ → Symbol → Option (Rule σ)

/-- A state, the position of the head, and the symbol in each cell. -/
structure Config (σ : Type) where
  state : σ
  head : Nat
  cell : Nat → Symbol

/-- What a step goes by: the symbol under the head, or one that is supplied instead. -/
inductive Input where
  | scanned
  | supplied (s : Symbol)

/-- The position after a move. In the first cell a left move stays. -/
def moved : Nat → Direction → Nat
  | 0, .left => 0
  | i + 1, .left => i
  | i, .right => i + 1

/-- The textbook head and the head of the tape move alike, and both stay in the first cell rather
than leave it. -/
theorem moved_eq_headAfter (i : Nat) (d : Direction) : moved i d = Tape.headAfter i d := by
  cases d with
  | left => cases i <;> rfl
  | right => cases i <;> rfl

namespace Config

variable {σ : Type}

def initial (start : σ) (content : Array Symbol) (blank : Symbol) : Config σ where
  state := start
  head := 0
  cell i := content.getD i blank

def symbol (c : Config σ) : Input → Symbol
  | .scanned => c.cell c.head
  | .supplied s => s

def follow (c : Config σ) (r : Rule σ) : Config σ where
  state := r.next
  head := moved c.head r.direction
  cell := Function.update c.cell c.head r.write

def step (rules : Rules σ) (c : Config σ) (i : Input) : Option (Config σ) :=
  (rules c.state (c.symbol i)).map c.follow

/-- Takes a step for each input, if there are rules for all of them. -/
def after (rules : Rules σ) (c : Config σ) (inputs : List Input) : Option (Config σ) :=
  inputs.foldlM (step rules) c

def positions (rules : Rules σ) : Config σ → List Input → List Nat
  | _, [] => []
  | c, i :: inputs =>
    c.head :: match c.step rules i with
      | some d => positions rules d inputs
      | none => []

theorem after_append (rules : Rules σ) (c : Config σ) (inputs more : List Input) :
    c.after rules (inputs ++ more) = (c.after rules inputs).bind fun d => d.after rules more := by
  unfold after
  rw [List.foldlM_append]
  rfl

theorem after_singleton (rules : Rules σ) (c : Config σ) (i : Input) :
    c.after rules [i] = c.step rules i := by
  unfold after
  rw [List.foldlM_cons]
  cases c.step rules i <;> rfl

theorem after_cons_of_step {rules : Rules σ} {c d : Config σ} {i : Input}
    (h : c.step rules i = some d) (inputs : List Input) :
    c.after rules (i :: inputs) = d.after rules inputs := by
  unfold after
  rw [List.foldlM_cons, h]
  rfl

theorem positions_append_singleton {rules : Rules σ} {c d : Config σ} {inputs : List Input}
    (h : c.after rules inputs = some d) (i : Input) :
    c.positions rules (inputs ++ [i]) = c.positions rules inputs ++ [d.head] := by
  induction inputs generalizing c with
  | nil =>
    obtain rfl : c = d := Option.some.inj h
    show c.head :: _ = [c.head]
    cases c.step rules i <;> rfl
  | cons j inputs ih =>
    cases hj : c.step rules j with
    | none =>
      unfold after at h
      rw [List.foldlM_cons, hj] at h
      cases h
    | some e =>
      rw [after_cons_of_step hj] at h
      simp only [List.cons_append, positions, hj, ih h]

/-! ## Trajectories -/

def trajectory (rules : Rules σ) (c : Config σ) (k : Nat) : Option (Config σ) :=
  c.after rules (List.replicate k .scanned)

def Halted (accept reject : σ) (c : Config σ) : Prop := c.state = accept ∨ c.state = reject

def RunsUntil (rules : Rules σ) (accept reject : σ) (c : Config σ) (k : Nat) : Prop :=
  ∀ j < k, ∀ d, c.trajectory rules j = some d → ¬ d.Halted accept reject

/-- The `k`-th configuration is the first that is halted. -/
structure HaltsAt (rules : Rules σ) (accept reject : σ) (c : Config σ) (k : Nat) (d : Config σ) :
    Prop where
  reached : c.trajectory rules k = some d
  halted : d.Halted accept reject
  first : c.RunsUntil rules accept reject k

/-- The `k`-th configuration has no rule for what it reads, and neither it nor one before it is
halted. -/
structure StuckAt (rules : Rules σ) (accept reject : σ) (c : Config σ) (k : Nat) (d : Config σ) :
    Prop where
  reached : c.trajectory rules k = some d
  no_rule : rules d.state (d.cell d.head) = none
  running : c.RunsUntil rules accept reject (k + 1)

theorem trajectory_add (rules : Rules σ) (c : Config σ) (j k : Nat) :
    c.trajectory rules (j + k) = (c.trajectory rules j).bind fun d => d.trajectory rules k := by
  unfold trajectory
  rw [← List.replicate_append_replicate, after_append]

theorem trajectory_succ {rules : Rules σ} {c d : Config σ} {k : Nat}
    (h : c.trajectory rules k = some d) : c.trajectory rules (k + 1) = d.step rules .scanned := by
  rw [trajectory_add, h, Option.bind_some]
  exact after_singleton rules d .scanned

/-- A trajectory has no gaps. -/
theorem exists_trajectory_of_le {rules : Rules σ} {c d : Config σ} {j k : Nat}
    (h : c.trajectory rules k = some d) (hjk : j ≤ k) : ∃ e, c.trajectory rules j = some e := by
  rw [← Nat.add_sub_cancel' hjk, trajectory_add] at h
  obtain ⟨e, he, -⟩ := Option.bind_eq_some_iff.1 h
  exact ⟨e, he⟩

theorem HaltsAt.unique {rules : Rules σ} {accept reject : σ} {c d e : Config σ} {j k : Nat}
    (hj : c.HaltsAt rules accept reject j d) (hk : c.HaltsAt rules accept reject k e) :
    j = k ∧ d = e := by
  have hjk : ¬ j < k := fun hlt => hk.first j hlt d hj.reached hj.halted
  have hkj : ¬ k < j := fun hlt => hj.first k hlt e hk.reached hk.halted
  obtain rfl : j = k := by omega
  exact ⟨rfl, Option.some.inj (hj.reached.symm.trans hk.reached)⟩

/-- A trajectory ends where it is stuck. -/
theorem StuckAt.le {rules : Rules σ} {accept reject : σ} {c d e : Config σ} {j k : Nat}
    (hk : c.StuckAt rules accept reject k d) (hj : c.trajectory rules j = some e) : j ≤ k := by
  by_contra hlt
  obtain ⟨f, hf⟩ := exists_trajectory_of_le hj (show k + 1 ≤ j by omega)
  rw [trajectory_succ hk.reached] at hf
  have hnone : d.step rules .scanned = none := by
    unfold step
    rw [show d.symbol .scanned = d.cell d.head from rfl, hk.no_rule]
    rfl
  rw [hnone] at hf
  cases hf

theorem StuckAt.unique {rules : Rules σ} {accept reject : σ} {c d e : Config σ} {j k : Nat}
    (hj : c.StuckAt rules accept reject j d) (hk : c.StuckAt rules accept reject k e) :
    j = k ∧ d = e := by
  have hjk := hk.le hj.reached
  have hkj := hj.le hk.reached
  obtain rfl : j = k := by omega
  exact ⟨rfl, Option.some.inj (hj.reached.symm.trans hk.reached)⟩

/-- A trajectory that is stuck before it halts does not halt. -/
theorem StuckAt.not_haltsAt {rules : Rules σ} {accept reject : σ} {c d e : Config σ} {j k : Nat}
    (hj : c.StuckAt rules accept reject j d) : ¬ c.HaltsAt rules accept reject k e := by
  intro hk
  have hkj := hj.le hk.reached
  exact hj.running k (by omega) e hk.reached hk.halted

/-- No configuration that a trajectory steps out of is in a state without rules. -/
theorem runsUntil_of_trajectory {rules : Rules σ} {accept reject : σ} {c d : Config σ} {k : Nat}
    (haccept : ∀ s, rules accept s = none) (hreject : ∀ s, rules reject s = none)
    (h : c.trajectory rules k = some d) : c.RunsUntil rules accept reject k := by
  intro j hj e he hhalted
  obtain ⟨f, hf⟩ := exists_trajectory_of_le h (show j + 1 ≤ k from hj)
  rw [trajectory_succ he, step] at hf
  rcases hhalted with hstate | hstate
  · rw [hstate, haccept] at hf
    cases hf
  · rw [hstate, hreject] at hf
    cases hf

end Config

/-! ## Other states -/

section Renaming

variable {σ τ : Type} (f : σ → τ)

def Rule.map (r : Rule σ) : Rule τ where
  next := f r.next
  write := r.write
  direction := r.direction

def Config.map (c : Config σ) : Config τ where
  state := f c.state
  head := c.head
  cell := c.cell

variable {f} {rules : Rules σ} {rules' : Rules τ}

/-- Rules that say the same under other names for the states lead along the same way. -/
theorem Config.trajectory_map (h : ∀ q s, rules' (f q) s = (rules q s).map (·.map f)) (c : Config σ)
    (k : Nat) : (c.map f).trajectory rules' k = (c.trajectory rules k).map (·.map f) := by
  unfold trajectory after
  induction k generalizing c with
  | zero => rfl
  | succ k ih =>
    have hstep : (c.map f).step rules' .scanned = (c.step rules .scanned).map (·.map f) := by
      unfold step
      rw [show rules' (c.map f).state ((c.map f).symbol .scanned) = _ from
        h c.state (c.symbol .scanned)]
      cases rules c.state (c.symbol .scanned) <;> rfl
    rw [List.replicate_succ, List.foldlM_cons, List.foldlM_cons, hstep]
    cases c.step rules .scanned with
    | none => rfl
    | some d => exact ih d

end Renaming

end SingleTape.Textbook
