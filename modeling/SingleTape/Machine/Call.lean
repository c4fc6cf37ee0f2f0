import SingleTape.Event
import SingleTape.Machine.Run

/-!
# Calls

What a client can ask of a machine, as data, with the answer and the events each call gives. A
machine's history is a list of calls.
-/

namespace SingleTape.Machine

inductive Call where
  /-- Put a content on the tape and start over. -/
  | reset (content : Array Symbol)
  /-- Take a step as if this symbol were under the head. -/
  | read (s : Symbol)
  /-- Take a step. -/
  | step
  /-- Run to the end and tell why it ended. -/
  | run
  /-- Run to the end and tell whether the machine accepted. -/
  | begin
deriving DecidableEq

inductive Reply where
  | done
  | status (s : Status)
  | outcome (o : Outcome)
  | verdict (accepted : Bool)
deriving DecidableEq

/-- A run with its events: one per step, and one at its end unless it fails. -/
def runLogged (m : Machine) : Except Fault Outcome × Array Event × Machine :=
  match m.runNoting (fun events move _ => events.push (.stepped move)) #[] with
  | (.ok outcome, events, m) => (.ok outcome, events.push (.finished outcome m.steps), m)
  | (.error fault, events, m) => (.error fault, events, m)

def perform (m : Machine) : Call → Except Fault Reply × Array Event × Machine
  | .reset content =>
    match m.reset content with
    | .ok m => (.ok .done, #[], m)
    | .error fault => (.error fault, #[], m)
  | .read s =>
    match m.read s with
    | (.ok move, m) => (.ok .done, #[.stepped move], m)
    | (.error fault, m) => (.error fault, #[], m)
  | .step =>
    match m.step with
    | (.ok move, m) => (.ok (.status m.status), #[.stepped move], m)
    | (.error fault, m) => (.error fault, #[], m)
  | .run =>
    let (result, events, m) := m.runLogged
    (result.map .outcome, events, m)
  | .begin =>
    let (result, events, m) := m.runLogged
    (result.map fun o => .verdict o.isAccepted, events, m)

def after (m : Machine) (calls : List Call) : Machine :=
  calls.foldl (fun m c => (m.perform c).2.2) m

end SingleTape.Machine
