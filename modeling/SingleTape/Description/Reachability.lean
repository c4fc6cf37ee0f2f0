import SingleTape.Description.Basic

/-!
# States that can be reached

The transition lines of a description are the edges of a graph on state names. What cannot be
reached from the first declared state is never entered by a run. That is no error, but worth a
word to the author.
-/

namespace SingleTape.Description

def successors (edges : List (String × String)) (q : String) : List String :=
  (edges.filter (·.1 = q)).map (·.2)

/-- A search under way: the names that were visited, and those that wait for their turn. A name can
wait many times over, also when it was visited before. -/
structure Search where
  found : List String
  waiting : List String
deriving DecidableEq

namespace Search

variable (edges : List (String × String))

/-- The turn of the name that has waited longest: if it is new, all that it leads to is to wait. -/
def turn (x : Search) : Search :=
  match x.waiting with
  | [] => x
  | q :: waiting =>
    if q ∈ x.found then { x with waiting }
    else { found := q :: x.found, waiting := waiting ++ successors edges q }

/-- How many turns are left, should every edge be followed yet. -/
def work (x : Search) : Nat := x.waiting.length + edges.countP (·.1 ∉ x.found)

/-- A name that is new brings in as many names as there are edges that it uses up. -/
theorem countP_source (found : List String) {q : String} (hq : q ∉ found) :
    edges.countP (·.1 ∉ found) = edges.countP (·.1 ∉ q :: found) + (successors edges q).length := by
  have hsplit := List.length_eq_countP_add_countP (l := edges.filter (·.1 ∉ found))
    fun e => decide (e.1 = q)
  rw [← List.countP_eq_length_filter, List.countP_filter, List.countP_filter] at hsplit
  have hsource : edges.countP (fun e => decide (e.1 = q) && decide (e.1 ∉ found)) =
      (successors edges q).length := by
    rw [successors, List.length_map, ← List.countP_eq_length_filter]
    refine List.countP_congr fun e _ => ?_
    simp only [Bool.and_eq_true, decide_eq_true_eq]
    exact ⟨And.left, fun h => ⟨h, h ▸ hq⟩⟩
  rw [hsource] at hsplit
  rw [hsplit, Nat.add_comm]
  congr 1
  exact List.countP_congr fun e _ => by simp

/-- Every turn takes one off the work that is left, so the search ends. -/
theorem work_turn {x : Search} (h : x.waiting ≠ []) :
    (x.turn edges).work edges + 1 = x.work edges := by
  obtain ⟨found, waiting⟩ := x
  cases waiting with
  | nil => exact absurd rfl h
  | cons q waiting =>
    by_cases hq : q ∈ found
    · simp only [turn, if_pos hq, work, List.length_cons]
      omega
    · have := countP_source edges found hq
      simp only [turn, if_neg hq, work, List.length_append, List.length_cons]
      omega

def finish (x : Search) : List String :=
  if x.waiting = [] then x.found else (x.turn edges).finish
termination_by x.work edges
decreasing_by
  have := work_turn edges ‹_›
  omega

end Search

def edges (d : Description) : List (String × String) :=
  d.transitions.map fun t => (t.state, t.next)

/-- The names of the declared states that cannot be reached from the first one, in order. -/
def unreachableStates (d : Description) : List String :=
  match d.states with
  | [] => []
  | first :: _ =>
    let reached := Search.finish d.edges { found := [], waiting := [first.name] }
    (d.states.map (·.name)).filter (· ∉ reached)

end SingleTape.Description
