import Mathlib.Data.Finset.Card
import Mathlib.Data.Finset.Insert
import SingleTape.Proofs.Graph.Counting

/-!
# Graphs keep a log

A graph knows of the calls that built it what succeeded, and nothing else: the names in the order in
which they were added, and the entries in the order in which they were made. Whether an insertion
succeeds depends on the number of states alone, so insertions for different states or symbols can
change places.
-/

namespace SingleTape

/-- What a successful insertion stores, and for which state and symbol. -/
structure Entry where
  source : StateId
  symbol : Symbol
  transition : Transition
deriving DecidableEq

def Entry.key (e : Entry) : StateId × Symbol := (e.source, e.symbol)

def latest? (entries : List Entry) (id : StateId) (s : Symbol) : Option Transition :=
  ((entries.filter fun e => e.key = (id, s)).getLast?).map (·.transition)

/-- Entries for two symbols can be stored in either order. -/
theorem Table.insert_comm (t : Table) {s r : Symbol} (x y : Transition) (h : s ≠ r) :
    (t.insert s x).insert r y = (t.insert r y).insert s x := by
  apply ext_get?
  intro u
  by_cases hs : u = s
  · rw [hs, get?_insert_of_ne _ _ h, get?_insert_self, get?_insert_self]
  · by_cases hr : u = r
    · rw [hr, get?_insert_self, get?_insert_of_ne _ _ (Ne.symm h), get?_insert_self]
    · rw [get?_insert_of_ne _ _ hr, get?_insert_of_ne _ _ hs, get?_insert_of_ne _ _ hs,
        get?_insert_of_ne _ _ hr]

theorem State.insert_comm (q : State) {s r : Symbol} (x y : Transition) (h : s ≠ r) :
    (q.insert s x).insert r y = (q.insert r y).insert s x :=
  congrArg (State.mk q.name) (q.table.insert_comm x y h)

namespace Graph

namespace Call

def name? : Call → Option String
  | addState name => some name
  | connect .. => none
  | insert .. => none

def key? : Call → Option (StateId × Symbol)
  | addState _ => none
  | connect source s _ _ _ => some (source, s)
  | insert source s _ => some (source, s)

def stored? : Call → Option Entry
  | addState _ => none
  | connect source symbol target write direction =>
    if h : write = "" then none
    else some { source, symbol, transition := { target, write, direction, write_ne_empty := h } }
  | insert source symbol transition => some { source, symbol, transition }

/-- Why a graph with `n` states refuses a transition between two handles, if it does. -/
def foreign? (n : Nat) (source target : StateId) : Option Fault :=
  if n ≤ target.index then some (.unknownTarget target)
  else if n ≤ source.index then some (.unknownState source)
  else none

def refusal? (n : Nat) : Call → Option Fault
  | addState _ => none
  | connect source _ target write _ =>
    if write = "" then some .emptyWrite else foreign? n source target
  | insert source _ x => foreign? n source x.target

end Call

def added (calls : List Call) : List String := calls.filterMap Call.name?

def entries (g : Graph) : List Call → List Entry
  | [] => []
  | c :: calls =>
    (if (g.perform c).1.isOk then c.stored?.toList else []) ++ entries (g.perform c).2 calls

variable {g h : Graph} {names : List String} {made : List Entry}

/-! ## What a call can do -/

/-- A transition between foreign handles is refused with the fault of the first one found. -/
theorem insert_eq_error {source : StateId} {s : Symbol} {x : Transition} {fault : Fault}
    (hx : Call.foreign? g.size source x.target = some fault) :
    g.insert source s x = .error fault := by
  unfold Call.foreign? at hx
  unfold insert
  by_cases htarget : x.target ∈ g
  · rw [if_neg (Nat.not_le.mpr htarget)] at hx
    rw [if_pos htarget]
    by_cases hsource : source ∈ g
    · rw [if_neg (Nat.not_le.mpr hsource)] at hx
      cases hx
    · rw [if_pos (Nat.not_lt.mp hsource)] at hx
      cases hx
      rw [if_neg hsource]
  · rw [if_pos (Nat.not_lt.mp htarget)] at hx
    cases hx
    rw [if_neg htarget]

/-- Nothing is foreign about a transition whose two ends are states of the graph. -/
theorem foreign?_eq_none_iff {n : Nat} {source target : StateId} :
    Call.foreign? n source target = none ↔ target.index < n ∧ source.index < n := by
  unfold Call.foreign?
  by_cases htarget : n ≤ target.index
  · rw [if_pos htarget]
    exact iff_of_false nofun fun h => Nat.not_lt.mpr htarget h.1
  · rw [if_neg htarget]
    by_cases hsource : n ≤ source.index
    · rw [if_pos hsource]
      exact iff_of_false nofun fun h => Nat.not_lt.mpr hsource h.2
    · rw [if_neg hsource]
      exact iff_of_true rfl ⟨Nat.not_le.mp htarget, Nat.not_le.mp hsource⟩

/-- A transition between states of the graph is stored. -/
theorem exists_insert {source : StateId} {s : Symbol} {x : Transition}
    (hx : Call.foreign? g.size source x.target = none) : ∃ h, g.insert source s x = .ok h := by
  obtain ⟨htarget, hsource⟩ := foreign?_eq_none_iff.mp hx
  unfold insert
  rw [if_pos (mem_iff.mpr htarget), if_pos (mem_iff.mpr hsource)]
  exact ⟨_, rfl⟩

/-- Giving a transition by its parts is another way to insert it, unless it would write nothing. -/
theorem perform_connect {source target : StateId} {s write : Symbol} {direction : Direction}
    (hwrite : write ≠ "") :
    g.perform (.connect source s target write direction) =
      g.perform (.insert source s ⟨target, write, direction, hwrite⟩) := by
  show g.settle (g.connect _ _ _ _ _) = g.settle (g.insert _ _ _)
  rw [connect, Transition.ofParts, dif_neg hwrite]

/-- A refused call gives the fault and leaves the graph as it was. -/
theorem perform_of_refused {c : Call} {fault : Fault} (hc : c.refusal? g.size = some fault) :
    g.perform c = (.error fault, g) := by
  have hinsert : ∀ {source s x}, Call.foreign? g.size source x.target = some fault →
      g.perform (.insert source s x) = (.error fault, g) := by
    intro source s x hx
    show g.settle (g.insert source s x) = _
    rw [insert_eq_error hx, settle]
  cases c with
  | addState name => cases hc
  | connect source s target write direction =>
    by_cases hwrite : write = ""
    · rw [Call.refusal?, if_pos hwrite] at hc
      cases hc
      show g.settle (g.connect _ _ _ _ _) = _
      rw [connect, Transition.ofParts, dif_pos hwrite, settle]
    · rw [perform_connect hwrite]
      apply hinsert
      rwa [Call.refusal?, if_neg hwrite] at hc
  | insert source s x => exact hinsert hc

/-- A call that is not refused adds a state or makes its entry. -/
theorem perform_of_granted {c : Call} (hc : c.refusal? g.size = none) {k : StateId × Symbol}
    (hk : c.key? = some k) :
    ∃ e h, c.stored? = some e ∧ e.key = k ∧ g.insert e.source e.symbol e.transition = .ok h ∧
      g.perform c = (.ok .stored, h) := by
  -- The two kinds of calls come down to the same insertion.
  have hinsert : ∀ {source s x}, Call.foreign? g.size source x.target = none →
      ∃ h, g.insert source s x = .ok h ∧ g.perform (.insert source s x) = (.ok .stored, h) := by
    intro source s x hx
    obtain ⟨h, hh⟩ := exists_insert hx
    refine ⟨h, hh, ?_⟩
    show g.settle (g.insert source s x) = _
    rw [hh, settle]
  cases c with
  | addState name => cases hk
  | connect source s target write direction =>
    cases hk
    by_cases hwrite : write = ""
    · rw [Call.refusal?, if_pos hwrite] at hc
      cases hc
    · rw [Call.refusal?, if_neg hwrite] at hc
      obtain ⟨h, hh, hperform⟩ := hinsert (x := ⟨target, write, direction, hwrite⟩) hc
      rw [perform_connect hwrite, Call.stored?, dif_neg hwrite]
      exact ⟨_, h, rfl, rfl, hh, hperform⟩
  | insert source s x =>
    cases hk
    obtain ⟨h, hh, hperform⟩ := hinsert hc
    exact ⟨_, h, rfl, rfl, hh, hperform⟩

/-! ## What a graph keeps of its log -/

/-- A graph is determined by the states that its handles find. -/
theorem ext_get? (hget : ∀ id, g.get? id = h.get? id) : g = h := by
  obtain ⟨states⟩ := g
  obtain ⟨states'⟩ := h
  congr 1
  exact Array.ext_getElem? fun i => hget ⟨i⟩

/-- A new entry is the latest one for its own key, and changes nothing for the others. -/
theorem latest?_append_singleton (made : List Entry) (e : Entry) (id : StateId) (s : Symbol) :
    latest? (made ++ [e]) id s =
      if e.key = (id, s) then some e.transition else latest? made id s := by
  unfold latest?
  rw [List.filter_append]
  by_cases he : e.key = (id, s)
  · rw [if_pos he, List.filter_cons_of_pos (by simpa using he)]
    simp
  · rw [if_neg he, List.filter_cons_of_neg (by simpa using he)]
    simp

theorem latest?_isSome_iff {id : StateId} {s : Symbol} :
    (latest? made id s).isSome ↔ (id, s) ∈ made.map (·.key) := by
  rw [latest?, Option.isSome_map, List.getLast?_isSome, ne_eq, List.filter_eq_nil_iff]
  simp

/-- A new state has no transitions, so the old ones are all there are. -/
theorem transitionCount_addState (g : Graph) (name : String) :
    (g.addState name).2.transitionCount = g.transitionCount := by
  rw [transitionCount_eq_sum, transitionCount_eq_sum]
  simp [addState, show (∅ : Table).size = 0 from rfl]

/-- A name finds the first state that bears it. -/
theorem find?_eq_some_iff {name : String} {id : StateId} :
    g.find? name = some id ↔ (g.get? id).map (·.name) = some name ∧
      ∀ i < id.index, (g.get? ⟨i⟩).map (·.name) ≠ some name := by
  obtain ⟨i⟩ := id
  have hfind : g.find? name = some ⟨i⟩ ↔ (g.states.findIdx? fun q => q.name == name) = some i := by
    simp [find?, Option.map_eq_some_iff]
  rw [hfind, Array.findIdx?_eq_some_iff_getElem]
  constructor
  · rintro ⟨hi, hname, hfirst⟩
    refine ⟨by simpa [get?, Array.getElem?_eq_getElem hi] using hname, fun j hj => ?_⟩
    have hj' : j < g.states.size := Nat.lt_trans hj hi
    simpa [get?, Array.getElem?_eq_getElem hj'] using hfirst j hj
  · rintro ⟨hname, hfirst⟩
    obtain ⟨q, hq, rfl⟩ := Option.map_eq_some_iff.mp hname
    obtain ⟨hi, hq⟩ := Array.getElem?_eq_some_iff.mp hq
    refine ⟨hi, by simp [hq], fun j hj => ?_⟩
    have hj' : j < g.states.size := Nat.lt_trans hj hi
    simpa [get?, Array.getElem?_eq_getElem hj'] using hfirst j hj

/-- The graph has a state for each of the names, in order, and has for each state and symbol the
transition that was stored last. -/
structure Keeps (g : Graph) (names : List String) (made : List Entry) : Prop where
  name : ∀ id, (g.get? id).map (·.name) = names[id.index]?
  transition : ∀ id s, g.transition? id s = latest? made id s
  count : g.transitionCount = (made.map (·.key)).toFinset.card

theorem keeps_empty : (∅ : Graph).Keeps [] [] where
  name id := by
    rw [get?_eq_none_iff.mpr (Nat.not_lt_zero id.index)]
    rfl
  transition id s := by
    rw [transition?, get?_eq_none_iff.mpr (Nat.not_lt_zero id.index)]
    rfl
  count := rfl

/-- A graph has as many states as names were added. -/
theorem Keeps.size_eq (hg : g.Keeps names made) : g.size = names.length := by
  have hmem : ∀ i, g.size ≤ i ↔ names.length ≤ i := by
    intro i
    rw [← List.getElem?_eq_none_iff, ← hg.name ⟨i⟩, Option.map_eq_none_iff, get?_eq_none_iff,
      mem_iff, Nat.not_lt]
  have hsize := hmem g.size
  have hlength := hmem names.length
  omega

theorem Keeps.addState (hg : g.Keeps names made) (name : String) :
    (g.addState name).2.Keeps (names ++ [name]) made where
  name id := by
    rw [get?_addState, List.getElem?_append, ← hg.size_eq]
    obtain ⟨i⟩ := id
    show ((if (⟨i⟩ : StateId) = ⟨g.size⟩ then _ else _ : Option State).map _) = _
    by_cases hi : i = g.size
    · simp [hi]
    · by_cases hlt : i < g.size
      · rw [if_neg (by simpa using hi), if_pos hlt, hg.name]
      · rw [if_neg (by simpa using hi), if_neg hlt, get?_eq_none_iff.mpr hlt,
          List.getElem?_eq_none (by simp only [List.length_singleton]; omega)]
        rfl
  transition id s := by rw [transition?_addState, hg.transition]
  count := by rw [transitionCount_addState, hg.count]

theorem Keeps.insert (hg : g.Keeps names made) {e : Entry}
    (hh : g.insert e.source e.symbol e.transition = .ok h) : h.Keeps names (made ++ [e]) where
  name id := by
    rw [← hg.name, get?_insert hh]
    split
    · cases g.get? id <;> rfl
    · rfl
  transition id s := by
    rw [transition?_insert hh, latest?_append_singleton, hg.transition]
    refine if_congr ?_ rfl rfl
    rw [Entry.key, Prod.mk.injEq, eq_comm, eq_comm (a := s)]
  count := by
    -- The count grows just if the key is a new one.
    have hkeys : ((made ++ [e]).map (·.key)).toFinset =
        Insert.insert e.key (made.map (·.key)).toFinset := by
      ext k
      simp
    rw [transitionCount_insert hh, hg.count, hg.transition, hkeys]
    by_cases hold : e.key ∈ made.map (·.key)
    · rw [if_pos (latest?_isSome_iff.mpr hold),
        Finset.insert_eq_of_mem (List.mem_toFinset.mpr hold)]
      rfl
    · rw [if_neg fun hsome => hold (latest?_isSome_iff.mp hsome),
        Finset.card_insert_of_notMem fun hmem => hold (List.mem_toFinset.mp hmem)]

/-- One call more in the log: a name, an entry, or nothing if the call fails. -/
theorem Keeps.perform (hg : g.Keeps names made) (c : Call) :
    (g.perform c).2.Keeps (names ++ c.name?.toList)
      (made ++ if (g.perform c).1.isOk then c.stored?.toList else []) := by
  -- A refused call adds neither a name nor an entry. Of the others, one adds a name and two an
  -- entry.
  cases hc : c.refusal? g.size with
  | some fault =>
    have hname : c.name? = none := by
      cases c with
      | addState name => cases hc
      | connect => rfl
      | insert => rfl
    rw [perform_of_refused hc, hname]
    show g.Keeps (names ++ []) (made ++ [])
    rw [List.append_nil, List.append_nil]
    exact hg
  | none =>
    cases hk : c.key? with
    | some k =>
      obtain ⟨e, h, he, -, hh, hperform⟩ := perform_of_granted hc hk
      have hname : c.name? = none := by
        cases c with
        | addState name => cases hk
        | connect => rfl
        | insert => rfl
      rw [hperform, hname, he]
      show h.Keeps (names ++ []) (made ++ [e])
      rw [List.append_nil]
      exact hg.insert hh
    | none =>
      cases c with
      | addState name =>
        show (g.addState name).2.Keeps (names ++ [name]) (made ++ [])
        rw [List.append_nil]
        exact hg.addState name
      | connect => cases hk
      | insert => cases hk

/-- Whatever the calls, the graph keeps the names and the entries that they add to its log. -/
theorem Keeps.after (hg : g.Keeps names made) (calls : List Call) :
    (g.after calls).Keeps (names ++ added calls) (made ++ entries g calls) := by
  induction calls generalizing g names made with
  | nil =>
    show g.Keeps (names ++ []) (made ++ [])
    rw [List.append_nil, List.append_nil]
    exact hg
  | cons c calls ih =>
    have hnames : added (c :: calls) = c.name?.toList ++ added calls := by
      unfold added
      rw [List.filterMap_cons]
      cases c.name? <;> rfl
    rw [hnames, entries, ← List.append_assoc, ← List.append_assoc]
    exact ih (hg.perform c)

/-! ## Insertions that change places -/

/-- A call for a transition adds no state. -/
theorem size_perform {c : Call} {k : StateId × Symbol} (hk : c.key? = some k) :
    (g.perform c).2.size = g.size := by
  cases hc : c.refusal? g.size with
  | some fault => rw [perform_of_refused hc]
  | none =>
    obtain ⟨e, h, -, -, hh, hperform⟩ := perform_of_granted hc hk
    rw [hperform, size_insert hh]

/-- The two stores touch different tables, or different symbols of one table. -/
theorem insert_comm {a b : Entry} {g₁ g₂ g₁₂ g₂₁ : Graph} (hne : a.key ≠ b.key)
    (h₁ : g.insert a.source a.symbol a.transition = .ok g₁)
    (h₂ : g.insert b.source b.symbol b.transition = .ok g₂)
    (h₁₂ : g₁.insert b.source b.symbol b.transition = .ok g₁₂)
    (h₂₁ : g₂.insert a.source a.symbol a.transition = .ok g₂₁) : g₁₂ = g₂₁ := by
  apply ext_get?
  intro id
  rw [get?_insert h₁₂, get?_insert h₁, get?_insert h₂₁, get?_insert h₂]
  -- Only at a source that both entries share the symbols have to tell them apart.
  by_cases ha : id = a.source
  · by_cases hb : id = b.source
    · have hsymbol : a.symbol ≠ b.symbol := by
        intro hs
        exact hne (Prod.ext (ha.symm.trans hb) hs)
      rw [if_pos hb, if_pos ha, if_pos ha, if_pos hb]
      cases g.get? id with
      | none => rfl
      | some q =>
        exact congrArg some (q.insert_comm a.transition b.transition hsymbol)
    · rw [if_neg hb, if_pos ha, if_pos ha, if_neg hb]
  · by_cases hb : id = b.source
    · rw [if_pos hb, if_neg ha, if_neg ha, if_pos hb]
    · rw [if_neg hb, if_neg ha, if_neg ha, if_neg hb]

/-- Insertions for different states or symbols leave the same graph in either order, and each gets
the answer that it would get without the other. -/
theorem perform_comm (g : Graph) {c d : Call} {k l : StateId × Symbol} (hc : c.key? = some k)
    (hd : d.key? = some l) (hne : k ≠ l) :
    ((g.perform c).2.perform d).2 = ((g.perform d).2.perform c).2 ∧
      ((g.perform c).2.perform d).1 = (g.perform d).1 ∧
      ((g.perform d).2.perform c).1 = (g.perform c).1 := by
  have hsizec : (g.perform c).2.size = g.size := size_perform hc
  have hsized : (g.perform d).2.size = g.size := size_perform hd
  -- Neither call adds a state, so each is refused after the other just if it is on its own.
  cases hrc : c.refusal? g.size with
  | some fault =>
    have hlater : (g.perform d).2.perform c = (.error fault, (g.perform d).2) :=
      perform_of_refused (by rw [hsized]; exact hrc)
    rw [hlater, perform_of_refused hrc]
    exact ⟨rfl, rfl, rfl⟩
  | none =>
    cases hrd : d.refusal? g.size with
    | some fault =>
      have hlater : (g.perform c).2.perform d = (.error fault, (g.perform c).2) :=
        perform_of_refused (by rw [hsizec]; exact hrd)
      rw [hlater, perform_of_refused hrd]
      exact ⟨rfl, rfl, rfl⟩
    | none =>
      obtain ⟨a, g₁, ha, hka, h₁, hperform₁⟩ := perform_of_granted hrc hc
      obtain ⟨b, g₂, hb, hkb, h₂, hperform₂⟩ := perform_of_granted hrd hd
      rw [hperform₁] at hsizec ⊢
      rw [hperform₂] at hsized ⊢
      obtain ⟨b', g₁₂, hb', -, h₁₂, hperform₁₂⟩ :=
        perform_of_granted (g := g₁) (by rw [hsizec]; exact hrd) hd
      obtain ⟨a', g₂₁, ha', -, h₂₁, hperform₂₁⟩ :=
        perform_of_granted (g := g₂) (by rw [hsized]; exact hrc) hc
      obtain rfl : a = a' := Option.some.inj (ha.symm.trans ha')
      obtain rfl : b = b' := Option.some.inj (hb.symm.trans hb')
      rw [hperform₁₂, hperform₂₁]
      -- Both calls store, under different keys.
      exact ⟨insert_comm (by rw [hka, hkb]; exact hne) h₁ h₂ h₁₂ h₂₁, rfl, rfl⟩

/-! ## The graph and its log -/

/-- How a graph with `n` states answers calls: which succeed, and which of several faults of one is
told. -/
structure Answers (g : Graph) (n : Nat) : Prop where
  addState : ∀ name, (g.perform (.addState name)).1 = .ok (.added ⟨n⟩)
  connect : ∀ source s target write direction,
    (g.perform (.connect source s target write direction)).1 = .ok .stored ↔
      write ≠ "" ∧ target.index < n ∧ source.index < n
  insert : ∀ source s x, (g.perform (.insert source s x)).1 = .ok .stored ↔
    x.target.index < n ∧ source.index < n
  emptyWrite : ∀ source s target direction,
    (g.perform (.connect source s target "" direction)).1 = .error .emptyWrite
  unknownTarget : ∀ c e, c.stored? = some e → n ≤ e.transition.target.index →
    (g.perform c).1 = .error (.unknownTarget e.transition.target)
  unknownState : ∀ c e, c.stored? = some e → e.transition.target.index < n → n ≤ e.source.index →
    (g.perform c).1 = .error (.unknownState e.source)
  unchanged : ∀ c fault, (g.perform c).1 = .error fault → (g.perform c).2 = g

/-- What a graph shows of the names that were added and the entries that were made. -/
structure Shows (g : Graph) (names : List String) (made : List Entry) : Prop where
  size : g.size = names.length
  name : ∀ id, (g.get? id).map (·.name) = names[id.index]?
  find? : ∀ name id, g.find? name = some id ↔
    names[id.index]? = some name ∧ ∀ i < id.index, names[i]? ≠ some name
  lookup : ∀ id s q, names[id.index]? = some q → (g.state id >>= fun q => q.lookup s) =
    match latest? made id s with
    | some x => .ok x
    | none => .error (.undefinedTransition q s)
  foreign : ∀ id s, names.length ≤ id.index →
    (g.state id >>= fun q => q.lookup s) = .error (.unknownState id)
  count : g.transitionCount = (made.map (·.key)).toFinset.card
  closed : g.Closed

/-- A call that has an entry to make is refused only for its handles. -/
theorem refusal?_of_stored? {c : Call} {e : Entry} (he : c.stored? = some e) (n : Nat) :
    c.refusal? n = Call.foreign? n e.source e.transition.target := by
  cases c with
  | addState name => cases he
  | connect source s target write direction =>
    by_cases hwrite : write = ""
    · rw [Call.stored?, dif_pos hwrite] at he
      cases he
    · rw [Call.stored?, dif_neg hwrite] at he
      cases he
      rw [Call.refusal?, if_neg hwrite]
  | insert source s x =>
    cases he
    rfl

/-- A transition is stored exactly when there is nothing to refuse it for. -/
theorem perform_eq_stored_iff {c : Call} {k : StateId × Symbol} (hk : c.key? = some k) :
    (g.perform c).1 = .ok .stored ↔ c.refusal? g.size = none := by
  cases hc : c.refusal? g.size with
  | some fault =>
    rw [perform_of_refused hc]
    exact iff_of_false nofun nofun
  | none =>
    obtain ⟨e, h, -, -, -, hperform⟩ := perform_of_granted hc hk
    rw [hperform]
    exact iff_of_true rfl rfl

/-- A graph answers every call as its number of states alone tells. -/
theorem answers (g : Graph) : g.Answers g.size where
  addState _ := rfl
  connect source s target write direction := by
    rw [perform_eq_stored_iff (k := (source, s)) rfl, Call.refusal?]
    by_cases hwrite : write = ""
    · rw [if_pos hwrite]
      exact iff_of_false nofun fun h => h.1 hwrite
    · rw [if_neg hwrite, foreign?_eq_none_iff, and_iff_right hwrite]
  insert source s x := by
    rw [perform_eq_stored_iff (k := (source, s)) rfl, Call.refusal?, foreign?_eq_none_iff]
  emptyWrite source s target direction := by
    have hc : (Call.connect source s target "" direction).refusal? g.size = some .emptyWrite := by
      rw [Call.refusal?, if_pos rfl]
    rw [perform_of_refused hc]
  unknownTarget c e he htarget := by
    have hc : c.refusal? g.size = some (.unknownTarget e.transition.target) := by
      rw [refusal?_of_stored? he, Call.foreign?, if_pos htarget]
    rw [perform_of_refused hc]
  unknownState c e he htarget hsource := by
    have hc : c.refusal? g.size = some (.unknownState e.source) := by
      rw [refusal?_of_stored? he, Call.foreign?, if_neg (Nat.not_le.mpr htarget), if_pos hsource]
    rw [perform_of_refused hc]
  -- A call that is refused leaves the graph, and the others do not fail.
  unchanged c fault hfault := by
    cases hc : c.refusal? g.size with
    | some fault => rw [perform_of_refused hc]
    | none =>
      cases hk : c.key? with
      | some k =>
        rw [(perform_eq_stored_iff hk).mpr hc] at hfault
        cases hfault
      | none =>
        cases c with
        | addState name => cases hfault
        | connect => cases hk
        | insert => cases hk

/-- What a closed graph shows of itself is read off its log. -/
theorem Keeps.shows (hg : g.Keeps names made) (hclosed : g.Closed) : g.Shows names made where
  size := hg.size_eq
  name := hg.name
  find? name id := by
    simp only [find?_eq_some_iff, hg.name]
  lookup id s q hq := by
    rw [← hg.name] at hq
    obtain ⟨a, ha, rfl⟩ := Option.map_eq_some_iff.mp hq
    rw [← hg.transition, transition?, state, ha, Option.bind_some]
    show a.lookup s = _
    unfold State.lookup
    cases a.table.get? s with
    | some x => rfl
    | none => rfl
  foreign id s hid := by
    have hnone : g.get? id = none := get?_eq_none_iff.mpr (by rw [mem_iff, hg.size_eq]; omega)
    have hstate : g.state id = .error (.unknownState id) := by rw [state, hnone]
    exact congrArg (· >>= fun q => q.lookup s) hstate
  count := hg.count
  closed := hclosed

theorem added_append (calls more : List Call) : added (calls ++ more) = added calls ++ added more :=
  List.filterMap_append

theorem after_append (g : Graph) (calls more : List Call) :
    g.after (calls ++ more) = (g.after calls).after more :=
  List.foldl_append

/-- A graph is a log of the calls that succeeded. New states get the handles 0, 1, 2, and so on, and
no later call changes what is behind a handle. For a state and a symbol the graph has what was
stored last, and insertions for different ones can change places. -/
theorem after_is_log (calls : List Call) :
    (after ∅ calls).Shows (added calls) (entries ∅ calls) ∧
    (after ∅ calls).Answers (added calls).length ∧
    (∀ more, ∀ id ∈ after ∅ calls, ((after ∅ (calls ++ more)).get? id).map (·.name) =
      ((after ∅ calls).get? id).map (·.name)) ∧
    (∀ c d k l, c.key? = some k → d.key? = some l → k ≠ l →
      after ∅ (calls ++ [c, d]) = after ∅ (calls ++ [d, c]) ∧
      ((after ∅ (calls ++ [c])).perform d).1 = ((after ∅ calls).perform d).1 ∧
      ((after ∅ (calls ++ [d])).perform c).1 = ((after ∅ calls).perform c).1) := by
  -- Everything is read off the log that the graph keeps.
  have hkeeps : ∀ calls, (after ∅ calls).Keeps (added calls) (entries ∅ calls) :=
    fun calls => keeps_empty.after calls
  refine ⟨(hkeeps calls).shows (closed_empty.after calls), ?_, fun more id hid => ?_,
    fun c d k l hc hd hne => ?_⟩
  · rw [← (hkeeps calls).size_eq]
    exact answers _
  · have hlt : id.index < (added calls).length := by
      rw [← (hkeeps calls).size_eq]
      exact hid
    rw [(hkeeps (calls ++ more)).name, (hkeeps calls).name, added_append,
      List.getElem?_append_left hlt]
  · rw [after_append, after_append, after_append, after_append]
    exact perform_comm (after ∅ calls) hc hd hne

end Graph

end SingleTape
