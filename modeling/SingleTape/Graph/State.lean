import SingleTape.Graph.Table

/-!
# States
-/

namespace SingleTape

structure State where
  name : String
  table : Table := ∅
deriving DecidableEq, Inhabited

namespace State

def isTerminal (q : State) : Bool := q.table.isEmpty

def insert (q : State) (s : Symbol) (x : Transition) : State :=
  { q with table := q.table.insert s x }

/-- Stores the transition with the given parts. The target is not checked: a state on its own
does not know which states there are. -/
def connect (q : State) (s : Symbol) (target : StateId) (write : Symbol) (direction : Direction) :
    Except Fault State :=
  (Transition.ofParts target write direction).map (q.insert s)

def lookup (q : State) (s : Symbol) : Except Fault Transition :=
  match q.table.get? s with
  | some x => .ok x
  | none => .error (.undefinedTransition q.name s)

@[simp] theorem name_insert (q : State) (s : Symbol) (x : Transition) :
    (q.insert s x).name = q.name := rfl

@[simp] theorem table_insert (q : State) (s : Symbol) (x : Transition) :
    (q.insert s x).table = q.table.insert s x := rfl

end State

end SingleTape
