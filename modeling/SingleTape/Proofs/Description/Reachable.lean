import Mathlib.Logic.Function.Iterate
import Mathlib.Logic.Relation
import SingleTape.Description.Reachability
import SingleTape.Proofs.Description.Interpreter

/-!
# What the search for unreachable states finds

The search visits just the names to which a path of edges leads. All through it, what was visited
and what waits can be reached, and an edge out of a visited name ends in one of the two. When
nothing waits any more, no edge leads out of the visited names, and no path does.
-/

namespace SingleTape.Description

open Relation (ReflTransGen)

def Leads (edges : List (String × String)) (a b : String) : Prop := (a, b) ∈ edges

/-- The lines lead to the name from the state that is declared first. -/
def Reachable (d : Description) (q : String) : Prop := ReflTransGen (Leads d.edges) d.startName q

variable {edges : List (String × String)} {a b q : String}

theorem mem_successors_iff : b ∈ successors edges q ↔ Leads edges q b := by
  simp [successors, Leads]

namespace Search

def Meets (x : Search) (q : String) : Prop := q ∈ x.found ∨ q ∈ x.waiting

/-- The search for what can be reached from `a` has come this far. -/
structure Explores (edges : List (String × String)) (a : String) (x : Search) : Prop where
  start : x.Meets a
  sound : ∀ q, x.Meets q → ReflTransGen (Leads edges) a q
  closed : ∀ q ∈ x.found, ∀ b, Leads edges q b → x.Meets b

variable {x : Search}

theorem explores_start (edges : List (String × String)) (a : String) :
    Explores edges a { found := [], waiting := [a] } where
  start := .inr List.mem_cons_self
  sound := by
    rintro q (hq | hq)
    · cases hq
    · rw [List.mem_singleton.mp hq]
  closed := by
    rintro q hq
    cases hq

/-- A turn keeps what a search is about. -/
theorem Explores.turn (h : x.Explores edges a) : (x.turn edges).Explores edges a := by
  obtain ⟨found, waiting⟩ := x
  cases waiting with
  | nil => exact h
  | cons q waiting =>
    by_cases hq : q ∈ found
    · -- Whatever met `q` as a waiting name meets it as a visited one.
      have hmeets : ∀ c, Meets ⟨found, waiting⟩ c ↔ Meets ⟨found, q :: waiting⟩ c := by
        intro c
        simp only [Meets, List.mem_cons]
        grind
      rw [show Search.turn edges ⟨found, q :: waiting⟩ = ⟨found, waiting⟩ from if_pos hq]
      exact ⟨(hmeets a).mpr h.start, fun c hc => h.sound c ((hmeets c).mp hc),
        fun c hc b hb => (hmeets b).mpr (h.closed c hc b hb)⟩
    · have hmeets : ∀ c, Meets ⟨q :: found, waiting ++ successors edges q⟩ c ↔
          Meets ⟨found, q :: waiting⟩ c ∨ Leads edges q c := by
        intro c
        simp only [Meets, List.mem_cons, List.mem_append, mem_successors_iff]
        grind
      rw [show Search.turn edges ⟨found, q :: waiting⟩ =
        ⟨q :: found, waiting ++ successors edges q⟩ from if_neg hq]
      refine ⟨(hmeets a).mpr (.inl h.start), fun c hc => ?_, fun c hc b hb => (hmeets b).mpr ?_⟩
      · rcases (hmeets c).mp hc with hc | hc
        · exact h.sound c hc
        · exact (h.sound q (.inr List.mem_cons_self)).tail hc
      · rcases List.mem_cons.mp hc with rfl | hc
        · exact .inr hb
        · exact .inl (h.closed c hc b hb)

/-- A search with nothing left to look at has found what can be reached, and nothing else. -/
theorem Explores.mem_found_iff (h : x.Explores edges a) (hdone : x.waiting = []) :
    b ∈ x.found ↔ ReflTransGen (Leads edges) a b := by
  have hmeets : ∀ {c}, x.Meets c → c ∈ x.found := by
    rintro c (hc | hc)
    · exact hc
    · rw [hdone] at hc
      cases hc
  constructor
  · exact fun hb => h.sound b (.inl hb)
  · intro hpath
    induction hpath with
    | refl => exact hmeets h.start
    | tail _ hlast ih => exact hmeets (h.closed _ ih _ hlast)

/-- A search that is gone through with finds what can be reached, and nothing else. -/
theorem Explores.mem_finish_iff (h : x.Explores edges a) :
    b ∈ x.finish edges ↔ ReflTransGen (Leads edges) a b := by
  fun_induction finish edges x with
  | case1 x hdone => exact h.mem_found_iff hdone
  | case2 x hdone ih => exact ih h.turn

/-- A search comes to its end after as many turns as it has names waiting and edges to follow. -/
theorem exists_iterate_turn (edges : List (String × String)) (x : Search) :
    ∃ n ≤ x.work edges, ((turn edges)^[n] x).waiting = [] ∧
      ((turn edges)^[n] x).found = x.finish edges := by
  fun_induction finish edges x with
  | case1 x hdone => exact ⟨0, Nat.zero_le _, hdone, rfl⟩
  | case2 x hdone ih =>
    obtain ⟨n, hn, hlast⟩ := ih
    have hwork := work_turn edges hdone
    exact ⟨n + 1, by omega, hlast⟩

end Search

theorem mem_finish_startName_iff {d : Description} :
    q ∈ Search.finish d.edges { found := [], waiting := [d.startName] } ↔ d.Reachable q :=
  (Search.explores_start d.edges d.startName).mem_finish_iff

instance (d : Description) : DecidablePred d.Reachable := fun _ =>
  decidable_of_iff _ mem_finish_startName_iff

/-- The declared states that are reported are those that the lines do not lead to. -/
theorem unreachableStates_eq_filter (d : Description) :
    d.unreachableStates = d.stateNames.filter fun q => ¬ d.Reachable q := by
  unfold unreachableStates
  split
  · rename_i h
    rw [stateNames, h]
    rfl
  · rename_i first rest h
    have hstart : d.startName = first.name := by
      rw [startName, stateNames, h]
      rfl
    refine List.filter_congr fun q _ => decide_eq_decide.mpr (not_congr ?_)
    rw [← hstart]
    exact mem_finish_startName_iff

theorem notMem_unreachableStates_iff {d : Description} (hq : q ∈ d.stateNames) :
    q ∉ d.unreachableStates ↔ d.Reachable q := by
  rw [unreachableStates_eq_filter, List.mem_filter]
  simp [hq]

open scoped Classical in
/-- The search comes to its end, whatever the lines are, and what it reports are the declared names,
each as often as it is declared, to which no path of lines leads from the first one. -/
theorem unreachableStates_complement (d : Description) :
    match d.states with
    | [] => d.unreachableStates = []
    | first :: _ =>
      (∃ turns ≤ d.transitions.length + 1,
        let last := (Search.turn d.edges)^[turns] { found := [], waiting := [first.name] }
        last.waiting = [] ∧
          d.unreachableStates = (d.states.map (·.name)).filter (· ∉ last.found)) ∧
      d.unreachableStates = (d.states.map (·.name)).filter fun q =>
        ¬ ReflTransGen (fun a b => ∃ t ∈ d.transitions, t.state = a ∧ t.next = b) first.name q := by
  cases hstates : d.states with
  | nil => simp only [unreachableStates, hstates]
  | cons first rest =>
    have hleads : Leads d.edges = fun a b => ∃ t ∈ d.transitions, t.state = a ∧ t.next = b := by
      funext a b
      simp [Leads, edges]
    have hreported : d.unreachableStates = ((first :: rest).map (·.name)).filter
        (· ∉ Search.finish d.edges { found := [], waiting := [first.name] }) := by
      simp only [unreachableStates, hstates]
    constructor
    · obtain ⟨turns, hturns, hdone, hfound⟩ :=
        Search.exists_iterate_turn d.edges { found := [], waiting := [first.name] }
      refine ⟨turns, ?_, hdone, ?_⟩
      -- The work at the beginning is the first name and all edges.
      · have hedges : d.edges.countP (·.1 ∉ []) ≤ d.edges.length := List.countP_le_length
        rw [show d.edges.length = d.transitions.length from List.length_map _] at hedges
        simp only [Search.work, List.length_singleton] at hturns
        omega
      · rw [hreported, hfound]
    · rw [hreported, ← hleads]
      refine List.filter_congr fun q _ => decide_eq_decide.mpr (not_congr ?_)
      exact (Search.explores_start d.edges first.name).mem_finish_iff

end SingleTape.Description
