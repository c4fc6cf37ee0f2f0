import SingleTape.Graph.Transition

/-!
# Transition tables

A finite map from symbols to transitions. The entries are kept in increasing order of symbol, so
two tables that answer alike are equal (`Table.ext_get?`), whatever was inserted when.
-/

namespace SingleTape

/-- A map from symbols to transitions, as its entries in increasing order of symbol. -/
structure Table where
  entries : List (Symbol × Transition)
  sorted : entries.Pairwise (fun a b => a.1 < b.1)
deriving DecidableEq

namespace Table

instance : EmptyCollection Table := ⟨⟨[], .nil⟩⟩

instance : Inhabited Table := ⟨∅⟩

def get? (t : Table) (s : Symbol) : Option Transition := t.entries.lookup s

def contains (t : Table) (s : Symbol) : Bool := (t.get? s).isSome

def size (t : Table) : Nat := t.entries.length

def isEmpty (t : Table) : Bool := t.entries.isEmpty

/-- Puts an entry at its place among entries in order, where it replaces one for the same symbol. -/
def insertEntry (s : Symbol) (x : Transition) :
    List (Symbol × Transition) → List (Symbol × Transition)
  | [] => [(s, x)]
  | e :: rest =>
    if s < e.1 then (s, x) :: e :: rest
    else if s = e.1 then (s, x) :: rest
    else e :: insertEntry s x rest

/-- Storing an entry brings in no other than that one. -/
theorem mem_of_mem_insertEntry {s : Symbol} {x : Transition} {e : Symbol × Transition}
    {l : List (Symbol × Transition)} (h : e ∈ insertEntry s x l) : e = (s, x) ∨ e ∈ l := by
  induction l with
  | nil => simpa [insertEntry] using h
  | cons d rest ih =>
    unfold insertEntry at h
    split at h
    · simpa using h
    · split at h
      · rcases List.mem_cons.1 h with h | h
        · exact .inl h
        · exact .inr (List.mem_cons_of_mem _ h)
      · rcases List.mem_cons.1 h with h | h
        · exact .inr (h ▸ List.mem_cons_self)
        · exact (ih h).imp_right (List.mem_cons_of_mem _)

/-- Storing an entry keeps the entries sorted, and with that each symbol to one of them. -/
theorem pairwise_insertEntry (s : Symbol) (x : Transition) {l : List (Symbol × Transition)}
    (h : l.Pairwise (fun a b => a.1 < b.1)) :
    (insertEntry s x l).Pairwise (fun a b => a.1 < b.1) := by
  induction l with
  | nil => simp [insertEntry]
  | cons d rest ih =>
    have hd : ∀ e ∈ rest, d.1 < e.1 := (List.pairwise_cons.1 h).1
    unfold insertEntry
    split
    · rename_i hlt
      -- The entry goes before all others.
      refine List.pairwise_cons.2 ⟨fun e he => ?_, h⟩
      rcases List.mem_cons.1 he with rfl | he
      · exact hlt
      · exact String.lt_trans hlt (hd e he)
    · rename_i hlt
      split
      · rename_i heq
        -- It takes the place of one with the same symbol.
        exact List.pairwise_cons.2 ⟨fun e he => heq ▸ hd e he, h.of_cons⟩
      · rename_i hne
        -- It goes further back, and what it meets there is still above the first entry.
        have hgt : d.1 < s :=
          Std.not_le.1 fun hle => hne (String.le_antisymm hle (String.not_lt.1 hlt))
        refine List.pairwise_cons.2 ⟨fun e he => ?_, ih h.of_cons⟩
        rcases mem_of_mem_insertEntry he with rfl | he
        · exact hgt
        · exact hd e he

def insert (t : Table) (s : Symbol) (x : Transition) : Table :=
  ⟨insertEntry s x t.entries, pairwise_insertEntry s x t.sorted⟩

/-- A lookup answers with the first entry for the symbol. -/
theorem lookup_cons_eq_ite (s : Symbol) (e : Symbol × Transition)
    (l : List (Symbol × Transition)) :
    (e :: l).lookup s = if s = e.1 then some e.2 else l.lookup s := by
  obtain ⟨k, x⟩ := e
  rw [List.lookup_cons]
  by_cases h : s = k
  · simp [h]
  · simp [h, beq_eq_false_iff_ne.2 h]

theorem mem_of_lookup_eq_some {s : Symbol} {x : Transition} {l : List (Symbol × Transition)}
    (h : l.lookup s = some x) : (s, x) ∈ l := by
  induction l with
  | nil => simp at h
  | cons e rest ih =>
    rw [lookup_cons_eq_ite] at h
    split at h
    · rename_i hs
      cases h
      exact hs ▸ List.mem_cons_self
    · exact List.mem_cons_of_mem _ (ih h)

@[simp] theorem get?_empty (s : Symbol) : (∅ : Table).get? s = none := rfl

@[simp] theorem get?_insert_self (t : Table) (s : Symbol) (x : Transition) :
    (t.insert s x).get? s = some x := by
  have : ∀ l, (insertEntry s x l).lookup s = some x := by
    intro l
    induction l with
    | nil => simp [insertEntry]
    | cons e rest ih =>
      unfold insertEntry
      split
      · simp
      · split
        · simp
        · rename_i hne
          rw [lookup_cons_eq_ite, if_neg hne, ih]
  exact this t.entries

/-- Storing an entry for a symbol leaves those for all others alone. -/
theorem get?_insert_of_ne (t : Table) {s r : Symbol} (x : Transition) (h : r ≠ s) :
    (t.insert s x).get? r = t.get? r := by
  have : ∀ l, (insertEntry s x l).lookup r = l.lookup r := by
    intro l
    induction l with
    | nil => simp [insertEntry, lookup_cons_eq_ite, h]
    | cons e rest ih =>
      unfold insertEntry
      split
      · rw [lookup_cons_eq_ite, if_neg h]
      · split
        · rename_i heq
          rw [lookup_cons_eq_ite, lookup_cons_eq_ite, if_neg h, if_neg (heq ▸ h)]
        · rw [lookup_cons_eq_ite, lookup_cons_eq_ite, ih]
  exact this t.entries

/-- Below the least key of a list there is nothing to find. -/
theorem lookup_eq_none_of_lt {s : Symbol} {l : List (Symbol × Transition)}
    (h : ∀ e ∈ l, s < e.1) : l.lookup s = none := by
  cases hl : l.lookup s with
  | none => rfl
  | some x => exact absurd (h _ (mem_of_lookup_eq_some hl)) (String.lt_irrefl s)

/-- Sorted entries are determined by what is found in them. -/
theorem eq_of_lookup_eq {l m : List (Symbol × Transition)}
    (hl : l.Pairwise (fun a b => a.1 < b.1)) (hm : m.Pairwise (fun a b => a.1 < b.1))
    (h : ∀ s, l.lookup s = m.lookup s) : l = m := by
  induction l generalizing m with
  | nil =>
    cases m with
    | nil => rfl
    | cons e m => simpa [lookup_cons_eq_ite] using h e.1
  | cons d l ih =>
    cases m with
    | nil => simpa [lookup_cons_eq_ite] using h d.1
    | cons e m =>
      have hd := (List.pairwise_cons.1 hl).1
      have he := (List.pairwise_cons.1 hm).1
      -- the least key of each side is a key of the other, so the first entries agree
      have hkey : d.1 = e.1 := by
        by_cases hde : d.1 = e.1
        · exact hde
        · have hdm : (d.1, d.2) ∈ m := mem_of_lookup_eq_some (by
            simpa [lookup_cons_eq_ite, hde] using (h d.1).symm)
          have hel : (e.1, e.2) ∈ l := mem_of_lookup_eq_some (by
            simpa [lookup_cons_eq_ite, Ne.symm hde] using h e.1)
          exact absurd (hd _ hel) (String.lt_asymm (he _ hdm))
      have hval : d = e :=
        Prod.ext hkey (by simpa [lookup_cons_eq_ite, hkey] using h d.1)
      subst hval
      refine congrArg (d :: ·) (ih hl.of_cons hm.of_cons fun s => ?_)
      by_cases hs : s = d.1
      · rw [hs, lookup_eq_none_of_lt hd, lookup_eq_none_of_lt he]
      · simpa [lookup_cons_eq_ite, hs] using h s

/-- Tables that give every symbol the same transition are equal. -/
theorem ext_get? {t u : Table} (h : ∀ s, t.get? s = u.get? s) : t = u := by
  have := eq_of_lookup_eq t.sorted u.sorted h
  cases t; cases u; simp_all

def ofList (l : List (Symbol × Transition)) : Table :=
  l.foldl (fun t e => t.insert e.1 e.2) ∅

end Table

end SingleTape
