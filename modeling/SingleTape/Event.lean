import SingleTape.Machine.Basic

/-!
# Events

What the library tells an observer while it works. Every event has a level, a message and named
fields; an observer listens at one level and hears the events of that level and of the more severe
ones.
-/

namespace SingleTape

inductive Level where
  | warn
  | debug
  | trace
deriving DecidableEq

namespace Level

def rank : Level → Nat
  | warn => 0
  | debug => 1
  | trace => 2

def name : Level → String
  | warn => "WARN"
  | debug => "DEBUG"
  | trace => "TRACE"

def hears (listener l : Level) : Bool := l.rank ≤ listener.rank

end Level

inductive Event where
  /-- The program declares states that no run can get to. -/
  | unreachable (program : String) (states : List String)
  /-- A transition line replaces an earlier one for the same state and symbol. -/
  | replaced (program state : String) (symbol : Symbol) (line : Nat)
  /-- The program has been put together. -/
  | compiled (program : String) (states transitions : Nat)
  /-- A machine has taken a step. -/
  | stepped (move : Move)
  /-- A run has come to its end, so many steps after the tape was set. -/
  | finished (outcome : Outcome) (steps : Nat)
deriving DecidableEq

namespace Event

def level : Event → Level
  | unreachable .. | replaced .. => .warn
  | compiled .. | finished .. => .debug
  | stepped .. => .trace

inductive Field where
  | text (s : String)
  | number (n : Nat)

def message : Event → String
  | unreachable .. => "unreachable states"
  | replaced .. => "duplicate transition replaces an earlier one"
  | compiled .. => "compiled program"
  | stepped .. => "step"
  | finished .. => "run finished"

def fields : Event → List (String × Field)
  | unreachable program states =>
    [("program", .text program), ("states", .text (Text.quoteList states))]
  | replaced program state symbol line =>
    [("program", .text program), ("state", .text state), ("symbol", .text symbol),
      ("line", .number line)]
  | compiled program states transitions =>
    [("program", .text program), ("states", .number states), ("transitions", .number transitions)]
  | stepped move =>
    [("state", .text move.state), ("symbol", .text move.symbol), ("head", .number move.head),
      ("write", .text move.write), ("direction", .text move.direction.letter)]
  | finished outcome steps => [("outcome", .text outcome.label), ("steps", .number steps)]

end Event

end SingleTape
