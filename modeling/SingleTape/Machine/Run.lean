import SingleTape.Machine.Basic

/-!
# Runs

A run takes steps while the machine is running. Each step costs a unit of budget and a machine
without budget is not running, so the budget bounds the run: `Machine.advance` takes a number of
steps at most, and `Machine.run` gives it one step more than there is budget.
-/

namespace SingleTape.Machine

/-- Takes up to `n` steps while the machine is running. After each, `note` adds to `acc` what an
observer keeps of the step and of the machine after it. -/
def advance {σ : Type} (note : σ → Move → Machine → σ) :
    Nat → σ → Machine → Except Fault Unit × σ × Machine
  | 0, acc, m => (.ok (), acc, m)
  | n + 1, acc, m =>
    if m.status = .running then
      match m.step with
      | (.ok move, m) => advance note n (note acc move m) m
      | (.error fault, m) => (.error fault, acc, m)
    else (.ok (), acc, m)

/-- The most steps that the machine can still attempt while it is running. -/
def stepBound (m : Machine) : Nat := (m.remaining + 1).toNat

def runNoting {σ : Type} (note : σ → Move → Machine → σ) (acc : σ) (m : Machine) :
    Except Fault Outcome × σ × Machine :=
  match m.advance note m.stepBound acc with
  | (.ok (), acc, m) => (.ok m.outcome, acc, m)
  | (.error fault, acc, m) => (.error fault, acc, m)

def run (m : Machine) : Except Fault Outcome × Machine :=
  let (result, _, m) := m.runNoting (fun _ _ _ => ()) ()
  (result, m)

end SingleTape.Machine
