import SingleTape.Proofs.Library.Plan

/-!
# The plan for sums

The machine for sums goes through two operands and a result, one after the other on the tape, to
take one digit of each, and then back for the next column. It replaces the digits it has taken by
marks, and keeps the sum of the digits in its state, later the carry.
-/

namespace SingleTape.Addition

open Textbook (Rule)

def digit : Bool → Symbol
  | false => "0"
  | true => "1"

/-- What the machine is doing: taking a digit of the first operand and leaving it, taking one of the
second, for which the first may have none, and leaving it, comparing the sum with one of the result,
for which both may have none, and going back with the carry. -/
inductive Phase where
  | column (carry : Fin 2)
  | leaveFirst (sum : Fin 3)
  | second (sum : Fin 3)
  | secondLast (sum : Fin 2)
  | leaveSecond (sum : Fin 4)
  | third (sum : Fin 4)
  | thirdLast (sum : Fin 2)
  | backThird (carry : Fin 2)
  | backSecond (carry : Fin 2)
  | backFirst (carry : Fin 2)
  | accept
  | reject
deriving DecidableEq

def plus {n : Nat} (sum : Fin n) (d : Bool) : Fin (n + 1) := if d then sum.succ else sum.castSucc

def parity (sum : Fin 4) : Bool := decide (sum.val % 2 = 1)

def half (sum : Fin 4) : Fin 2 := ⟨sum.val / 2, by omega⟩

def onDigits (f : Bool → Rule Phase) : List (Symbol × Rule Phase) :=
  [("0", f false), ("1", f true)]

def leaveTable (q next : Phase) : List (Symbol × Rule Phase) :=
  onDigits (fun d => ⟨q, digit d, .right⟩) ++
    [("#", ⟨next, "#", .right⟩), ("_", ⟨.reject, "_", .right⟩)]

def secondTable (q : Phase) (sum : Fin 3) (next : Phase) : List (Symbol × Rule Phase) :=
  ("x", ⟨q, "x", .right⟩) :: onDigits (fun d => ⟨.leaveSecond (plus sum d), "x", .right⟩) ++
    [("#", ⟨next, "#", .right⟩), ("_", ⟨.reject, "_", .right⟩)]

/-- Compares a sum with a digit of the result. After its last one there may be zeros in mind. -/
def thirdTable (q : Phase) (sum : Fin 4) (done : Phase) : List (Symbol × Rule Phase) :=
  ("x", ⟨q, "x", .right⟩) ::
    onDigits (fun d => if d = parity sum then ⟨.backThird (half sum), "x", .left⟩
      else ⟨.reject, digit d, .left⟩) ++
    [("#", ⟨.reject, "#", .left⟩), ("_", ⟨if parity sum then .reject else done, "_", .left⟩)]

def backTable (q next : Phase) : List (Symbol × Rule Phase) :=
  ("x", ⟨q, "x", .left⟩) :: onDigits (fun d => ⟨q, digit d, .left⟩) ++ [("#", ⟨next, "#", .left⟩)]

def plan : Plan Phase where
  phases := (List.finRange 2).map .column ++ (List.finRange 3).map .leaveFirst ++
    (List.finRange 3).map .second ++ (List.finRange 2).map .secondLast ++
    (List.finRange 4).map .leaveSecond ++ (List.finRange 4).map .third ++
    (List.finRange 2).map .thirdLast ++ (List.finRange 2).map .backThird ++
    (List.finRange 2).map .backSecond ++ (List.finRange 2).map .backFirst ++ [.accept, .reject]
  name
    | .column c => "col" ++ toString c
    | .leaveFirst t => "s2_" ++ toString t
    | .second t => "f2_" ++ toString t
    | .secondLast t => "f2z_" ++ toString t
    | .leaveSecond t => "s3_" ++ toString t
    | .third t => "f3_" ++ toString t
    | .thirdLast t => "f3z_" ++ toString t
    | .backThird c => "b3_" ++ toString c
    | .backSecond c => "b2_" ++ toString c
    | .backFirst c => "b1_" ++ toString c
    | .accept => "accept"
    | .reject => "reject"
  table
    | .column c =>
      onDigits (fun d => ⟨.leaveFirst (plus c d), "x", .right⟩) ++
        [("#", ⟨.secondLast c, "#", .right⟩), ("_", ⟨.reject, "_", .right⟩)]
    | .leaveFirst t => leaveTable (.leaveFirst t) (.second t)
    | .second t => secondTable (.second t) t (.third (plus t false))
    | .secondLast t => secondTable (.secondLast t) (plus t false) (.thirdLast t)
    | .leaveSecond t => leaveTable (.leaveSecond t) (.third t)
    | .third t => thirdTable (.third t) t (.backThird (half t))
    | .thirdLast t => thirdTable (.thirdLast t) (plus (plus t false) false) .accept
    | .backThird c => backTable (.backThird c) (.backSecond c)
    | .backSecond c => backTable (.backSecond c) (.backFirst c)
    | .backFirst c =>
      onDigits (fun d => ⟨.backFirst c, digit d, .left⟩) ++
        [("x", ⟨.column c, "x", .right⟩), ("#", ⟨.column c, "#", .left⟩)]
    | .accept => []
    | .reject => []
  start := .column 0
  accept := .accept
  reject := .reject
  mem_phases q := by cases q <;> simp
  accept_ne_reject := by decide
  table_accept := rfl
  table_reject := rfl

set_option maxRecDepth 10000 in
/-- The plan is what the built-in text says. -/
theorem plan_writtenIn : plan.WrittenIn Library.additionText := by
  refine Plan.writtenIn_of_chars rfl ?_ ?_
  · decide +kernel
  · decide +kernel

end SingleTape.Addition
