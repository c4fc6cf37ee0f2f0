import SingleTape.Graph.Basic

/-!
# Building graphs

A graph comes about by a sequence of calls, any of which may fail. Whatever the calls, every stored
transition leads to a state of the graph.
-/

namespace SingleTape.Graph

inductive Call where
  /-- Add a state. -/
  | addState (name : String)
  /-- Store the transition with these parts. -/
  | connect (source : StateId) (s : Symbol) (target : StateId) (write : Symbol)
      (direction : Direction)
  /-- Store a transition that has been put together before. -/
  | insert (source : StateId) (s : Symbol) (x : Transition)
deriving DecidableEq

inductive Reply where
  | added (id : StateId)
  | stored
deriving DecidableEq

/-- The graph that an insertion gives, or the old one with the reason why it gives none. -/
def settle (g : Graph) : Except Fault Graph → Except Fault Reply × Graph
  | .ok h => (.ok .stored, h)
  | .error fault => (.error fault, g)

def perform (g : Graph) : Call → Except Fault Reply × Graph
  | .addState name => (.ok (.added (g.addState name).1), (g.addState name).2)
  | .connect source s target write direction =>
    g.settle (g.connect source s target write direction)
  | .insert source s x => g.settle (g.insert source s x)

def after (g : Graph) (calls : List Call) : Graph :=
  calls.foldl (fun g c => (g.perform c).2) g

def Built (g : Graph) : Prop := ∃ calls, g = after ∅ calls

/-- The transition of the state `id` for the symbol `s`, if there are such a state and an entry. -/
def transition? (g : Graph) (id : StateId) (s : Symbol) : Option Transition :=
  (g.get? id).bind fun q => q.table.get? s

def Closed (g : Graph) : Prop := ∀ id s x, g.transition? id s = some x → x.target ∈ g

theorem get?_isSome_iff {id : StateId} {g : Graph} : (g.get? id).isSome ↔ id ∈ g := by
  rw [Option.isSome_iff_ne_none, ne_eq, get?_eq_none_iff, Decidable.not_not]

theorem exists_get?_of_mem {id : StateId} {g : Graph} (h : id ∈ g) : ∃ q, g.get? id = some q :=
  Option.isSome_iff_exists.1 (get?_isSome_iff.2 h)

theorem state_eq_ok_iff {id : StateId} {g : Graph} {q : State} :
    g.state id = .ok q ↔ g.get? id = some q := by
  unfold state
  cases g.get? id with
  | none => simp
  | some a => simp

/-- A successful insertion shows that both ends were states of the graph. -/
theorem mem_of_insert {g h : Graph} {source : StateId} {s : Symbol} {x : Transition}
    (hg : g.insert source s x = .ok h) : x.target ∈ g ∧ source ∈ g := by
  unfold insert at hg
  split at hg
  · rename_i htarget
    split at hg
    · rename_i hsource
      exact ⟨htarget, hsource⟩
    · cases hg
  · cases hg

/-- A new state has no transitions and changes none of the others. -/
theorem transition?_addState (g : Graph) (name : String) (id : StateId) (s : Symbol) :
    (g.addState name).2.transition? id s = g.transition? id s := by
  unfold transition?
  rw [get?_addState]
  split
  · rename_i hid
    -- the new state has an empty table, and its handle meant nothing before
    have hnone : g.get? id = none := by
      rw [get?_eq_none_iff, hid, mem_iff]
      exact Nat.lt_irrefl g.size
    rw [hnone]
    rfl
  · rfl

/-- An insertion answers for its source and symbol, and changes no other answer. -/
theorem transition?_insert {g h : Graph} {source : StateId} {s : Symbol} {x : Transition}
    (hg : g.insert source s x = .ok h) (id : StateId) (r : Symbol) :
    h.transition? id r = if id = source ∧ r = s then some x else g.transition? id r := by
  unfold transition?
  rw [get?_insert hg]
  by_cases hid : id = source
  · obtain ⟨q, hq⟩ := exists_get?_of_mem (mem_of_insert hg).2
    rw [if_pos hid, hid, hq]
    by_cases hr : r = s
    · rw [if_pos ⟨rfl, hr⟩, hr]
      exact Table.get?_insert_self q.table s x
    · rw [if_neg fun h => hr h.2]
      exact Table.get?_insert_of_ne q.table x hr
  · rw [if_neg hid, if_neg fun h => hid h.1]

/-! ## Closed graphs -/

theorem closed_empty : (∅ : Graph).Closed := by
  intro id s x h
  have hnone : (∅ : Graph).get? id = none := get?_eq_none_iff.2 (Nat.not_lt_zero _)
  rw [transition?, hnone] at h
  cases h

theorem Closed.addState {g : Graph} (hg : g.Closed) (name : String) :
    (g.addState name).2.Closed := by
  intro id s x h
  rw [transition?_addState] at h
  have hlt : x.target.index < g.size := hg id s x h
  rw [mem_iff, size_addState]
  omega

theorem Closed.insert {g h : Graph} {source : StateId} {s : Symbol} {x : Transition}
    (hg : g.Closed) (hh : g.insert source s x = .ok h) : h.Closed := by
  intro id r y hy
  rw [transition?_insert hh] at hy
  rw [mem_iff, size_insert hh, ← mem_iff]
  split at hy
  · cases hy
    exact (mem_of_insert hh).1
  · exact hg id r y hy

/-- A transition given by its parts is stored like any other, if it writes some text. -/
theorem insert_of_connect {g h : Graph} {source target : StateId} {s write : Symbol}
    {direction : Direction} (hg : g.connect source s target write direction = .ok h) :
    ∃ x : Transition, x.target = target ∧ x.write = write ∧ x.direction = direction ∧
      g.insert source s x = .ok h := by
  unfold connect at hg
  split at hg
  · rename_i x hx
    unfold Transition.ofParts at hx
    split at hx
    · cases hx
    · cases hx
      exact ⟨_, rfl, rfl, rfl, hg⟩
  · cases hg

theorem Closed.perform {g : Graph} (hg : g.Closed) (c : Call) : (g.perform c).2.Closed := by
  cases c with
  | addState name => exact hg.addState name
  | connect source s target write direction =>
    show (g.settle (g.connect source s target write direction)).2.Closed
    cases hc : g.connect source s target write direction with
    | error fault => exact hg
    | ok h =>
      obtain ⟨x, -, -, -, hx⟩ := insert_of_connect hc
      exact hg.insert hx
  | insert source s x =>
    show (g.settle (g.insert source s x)).2.Closed
    cases hc : g.insert source s x with
    | error fault => exact hg
    | ok h => exact hg.insert hc

theorem Closed.after {g : Graph} (hg : g.Closed) (calls : List Call) : (g.after calls).Closed := by
  induction calls generalizing g with
  | nil => exact hg
  | cons c calls ih => exact ih (hg.perform c)

theorem Built.closed {g : Graph} (hg : g.Built) : g.Closed := by
  obtain ⟨calls, rfl⟩ := hg
  exact closed_empty.after calls

end SingleTape.Graph
