import SingleTape.Json.Value
import SingleTape.Json.Writer
import SingleTape.Machine.Basic

/-!
# Machine values as JSON

Directions, statuses and outcomes are written as their names, handles as numbers, transitions and
settings as objects.
-/

namespace SingleTape

open Json

def Json.decode? {α : Type} (ofJson? : Json.Value → Option α) (text : String) : Option α :=
  Value.parse? text >>= ofJson?

namespace Direction

def toJson (d : Direction) : String := Json.string d.name

def ofJson? : Json.Value → Option Direction :=
  Value.name? ([left, right].map fun d => (d.name, d))

end Direction

namespace Status

def toJson (s : Status) : String := Json.string s.name

def ofJson? : Json.Value → Option Status :=
  Value.name? ([running, accepted, rejected].map fun s => (s.name, s))

end Status

namespace Outcome

def toJson (o : Outcome) : String := Json.string o.name

def ofJson? : Json.Value → Option Outcome :=
  Value.name? ([accepted, rejected, budgetExhausted].map fun o => (o.name, o))

end Outcome

namespace StateId

def toJson (id : StateId) : String := Json.number id.index

def ofJson? (v : Json.Value) : Option StateId := v.word?.map StateId.mk

end StateId

namespace Transition

def toJson (x : Transition) : String :=
  Json.object [("target", x.target.toJson), ("write", Json.string x.write),
    ("direction", x.direction.toJson)]

/-- The transition that a record gives. One that would write the empty text is refused. -/
def ofJson? (v : Json.Value) : Option Transition := do
  match ← v.record? ["target", "write", "direction"] with
  | [target, write, direction] =>
    (ofParts (← StateId.ofJson? target) (← write.text?) (← Direction.ofJson? direction)).toOption
  | _ => none

end Transition

namespace Settings

def toJson (s : Settings) : String :=
  Json.object [("empty_symbol", Json.string s.blank), ("loop_budget", Json.number s.budget)]

def ofJson? (v : Json.Value) : Option Settings := do
  match ← v.record? ["empty_symbol", "loop_budget"] with
  | [blank, budget] => return { blank := ← blank.text?, budget := ← budget.word? }
  | _ => none

end Settings

end SingleTape
