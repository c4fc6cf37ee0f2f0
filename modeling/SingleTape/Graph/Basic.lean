import SingleTape.Graph.State

/-!
# Graphs of states

A graph owns the states of a machine and hands out handles to them. States are only ever added,
so a handle keeps its meaning, and a transition is only stored if both its ends are handles of
the graph.
-/

namespace SingleTape

/-- The states of a machine, in the order in which they were added. Names may repeat. -/
structure Graph where
  states : Array State := #[]
deriving DecidableEq, Inhabited

namespace Graph

instance : EmptyCollection Graph := ⟨{}⟩

def size (g : Graph) : Nat := g.states.size

def isEmpty (g : Graph) : Bool := g.states.isEmpty

def get? (g : Graph) (id : StateId) : Option State := g.states[id.index]?

instance : Membership StateId Graph := ⟨fun g id => id.index < g.size⟩

instance (id : StateId) (g : Graph) : Decidable (id ∈ g) :=
  inferInstanceAs (Decidable (id.index < g.size))

def state (g : Graph) (id : StateId) : Except Fault State :=
  match g.get? id with
  | some q => .ok q
  | none => .error (.unknownState id)

def find? (g : Graph) (name : String) : Option StateId :=
  (g.states.findIdx? fun q => q.name == name).map StateId.mk

def toList (g : Graph) : List (StateId × State) :=
  g.states.toList.zipIdx.map fun (q, i) => (⟨i⟩, q)

def transitionCount (g : Graph) : Nat := g.states.foldl (fun n q => n + q.table.size) 0

/-- Adds a state without transitions; its handle is the number of states there were. -/
def addState (g : Graph) (name : String) : StateId × Graph :=
  (⟨g.size⟩, { states := g.states.push { name } })

/-- Stores a transition of the state `source` for the symbol `s`, in place of the one that was
there. The target is looked at before the source. -/
def insert (g : Graph) (source : StateId) (s : Symbol) (x : Transition) : Except Fault Graph :=
  if x.target ∈ g then
    if source ∈ g then
      .ok { states := g.states.modify source.index fun q => q.insert s x }
    else .error (.unknownState source)
  else .error (.unknownTarget x.target)

/-- Stores the transition with the given parts. What it writes is looked at first. -/
def connect (g : Graph) (source : StateId) (s : Symbol) (target : StateId) (write : Symbol)
    (direction : Direction) : Except Fault Graph :=
  match Transition.ofParts target write direction with
  | .ok x => g.insert source s x
  | .error fault => .error fault

theorem mem_iff {id : StateId} {g : Graph} : id ∈ g ↔ id.index < g.size := Iff.rfl

theorem get?_eq_none_iff {id : StateId} {g : Graph} : g.get? id = none ↔ id ∉ g := by
  simp [get?, mem_iff, size]

/-! ## What the operations do to the states -/

@[simp] theorem size_addState (g : Graph) (name : String) :
    (g.addState name).2.size = g.size + 1 := by
  simp [addState, size]

/-- A new state is found under its handle, and the others as before. -/
theorem get?_addState (g : Graph) (name : String) (id : StateId) :
    (g.addState name).2.get? id =
      if id = (g.addState name).1 then some { name } else g.get? id := by
  obtain ⟨i⟩ := id
  simp [addState, get?, size, Array.getElem?_push]

/-- A stored transition is found in the table of its source, and the other states are as before. -/
theorem get?_insert {g h : Graph} {source : StateId} {s : Symbol} {x : Transition}
    (hg : g.insert source s x = .ok h) (id : StateId) :
    h.get? id = if id = source then (g.get? id).map (·.insert s x) else g.get? id := by
  obtain ⟨i⟩ := id
  obtain ⟨j⟩ := source
  unfold insert at hg
  split at hg
  · split at hg
    · cases hg
      by_cases hij : j = i
      · simp [get?, Array.getElem?_modify, hij]
      · simp [get?, Array.getElem?_modify, hij, Ne.symm hij]
    · cases hg
  · cases hg

/-- Storing a transition adds no state. -/
theorem size_insert {g h : Graph} {source : StateId} {s : Symbol} {x : Transition}
    (hg : g.insert source s x = .ok h) : h.size = g.size := by
  unfold insert at hg
  split at hg
  · split at hg
    · cases hg
      simp [size]
    · cases hg
  · cases hg

end Graph

end SingleTape
