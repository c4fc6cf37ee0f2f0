import Mathlib.Algebra.GroupWithZero.Nat
import SingleTape.Proofs.Graph.Closed

/-!
# Counting transitions

A stored transition counts once for its state and symbol, however often it is replaced.
-/

namespace SingleTape

/-- An entry takes the place of the one for its symbol, or it is one more. -/
theorem Table.length_insertEntry (s : Symbol) (x : Transition) {l : List (Symbol × Transition)}
    (h : l.Pairwise (fun a b => a.1 < b.1)) :
    (insertEntry s x l).length = l.length + if (l.lookup s).isSome then 0 else 1 := by
  induction l with
  | nil => rfl
  | cons e rest ih =>
    unfold insertEntry
    split
    · rename_i hlt
      -- the keys to the right are greater still
      have hnone : (e :: rest).lookup s = none := by
        apply lookup_eq_none_of_lt
        intro d hd
        rcases List.mem_cons.1 hd with rfl | hd
        · exact hlt
        · exact String.lt_trans hlt ((List.pairwise_cons.1 h).1 d hd)
      rw [hnone]
      rfl
    · split
      · rename_i heq
        rw [lookup_cons_eq_ite, if_pos heq]
        rfl
      · rename_i hne
        rw [lookup_cons_eq_ite, if_neg hne, List.length_cons, List.length_cons, ih h.of_cons]
        omega

theorem Table.size_insert (t : Table) (s : Symbol) (x : Transition) :
    (t.insert s x).size = t.size + if (t.get? s).isSome then 0 else 1 :=
  length_insertEntry s x t.sorted

namespace Graph

/-- Changing one summand changes the sum by the difference. -/
theorem sum_map_modify {α : Type} (f : α → Nat) (u : α → α) (l : List α) (i : Nat)
    (h : i < l.length) :
    ((l.modify i u).map f).sum + f l[i] = (l.map f).sum + f (u l[i]) := by
  induction l generalizing i with
  | nil => exact absurd h (Nat.not_lt_zero i)
  | cons a l ih =>
    cases i with
    | zero =>
      simp only [List.modify_zero_cons, List.map_cons, List.sum_cons, List.getElem_cons_zero]
      omega
    | succ i =>
      have := ih i (Nat.lt_of_succ_lt_succ h)
      simp only [List.modify_succ_cons, List.map_cons, List.sum_cons, List.getElem_cons_succ]
      omega

theorem transitionCount_eq_sum (g : Graph) :
    g.transitionCount = (g.states.toList.map fun q => q.table.size).sum := by
  rw [transitionCount, ← Array.foldl_toList, List.sum_eq_foldl_nat, List.foldl_map]

/-- A graph has one transition more after a call that stores one for a new place, and as many as
before when it replaces one. -/
theorem transitionCount_insert {g h : Graph} {source : StateId} {s : Symbol} {x : Transition}
    (hg : g.insert source s x = .ok h) :
    h.transitionCount = g.transitionCount + if (g.transition? source s).isSome then 0 else 1 := by
  obtain ⟨htarget, hmem⟩ := mem_of_insert hg
  have hsource : source.index < g.states.size := hmem
  have hentry : g.transition? source s = g.states[source.index].table.get? s := by
    rw [transition?, get?, Array.getElem?_eq_getElem hsource, Option.bind_some]
  unfold insert at hg
  rw [if_pos htarget, if_pos hmem] at hg
  cases hg
  have hsum := sum_map_modify (fun q : State => q.table.size) (fun q => q.insert s x)
    g.states.toList source.index (by simpa using hsource)
  simp only [State.table_insert, Table.size_insert, Array.getElem_toList] at hsum
  rw [transitionCount_eq_sum, transitionCount_eq_sum, hentry, Array.toList_modify]
  omega

end Graph

end SingleTape
