import SingleTape.Description.Violation
import SingleTape.Machine.Basic

/-!
# Descriptions at work

What a description means, read off its lines: states go by their names, and each step looks for the
last line for the state and the symbol under the head. There are no handles and no tables.
-/

namespace SingleTape

namespace Description

def lastLine (lines : List TransitionLine) (q : String) (s : Symbol) : Option TransitionLine :=
  (lines.filter fun t => t.state = q ∧ t.read = s).getLast?

/-- A line more is the last one for its own state and symbol, and changes nothing for the others.
-/
theorem lastLine_append_singleton (lines : List TransitionLine) (t : TransitionLine) (q : String)
    (s : Symbol) : lastLine (lines ++ [t]) q s =
      if t.state = q ∧ t.read = s then some t else lastLine lines q s := by
  unfold lastLine
  rw [List.filter_append]
  by_cases h : t.state = q ∧ t.read = s
  · rw [List.filter_cons_of_pos (by simpa using h), if_pos h]
    simp
  · rw [List.filter_cons_of_neg (by simpa using h), if_neg h]
    simp

/-- The last line for a state and a symbol is one of the lines for them. -/
theorem mem_of_lastLine {lines : List TransitionLine} {q : String} {s : Symbol}
    {t : TransitionLine} (h : lastLine lines q s = some t) :
    t ∈ lines ∧ t.state = q ∧ t.read = s := by
  obtain ⟨ht, hkey⟩ := List.mem_filter.mp (List.mem_of_getLast? h)
  exact ⟨ht, of_decide_eq_true hkey⟩

theorem lastLine_eq_none_iff {lines : List TransitionLine} {q : String} {s : Symbol} :
    lastLine lines q s = none ↔ ∀ t ∈ lines, ¬ (t.state = q ∧ t.read = s) := by
  simp [lastLine]

def startName (d : Description) : String := (d.stateNames.head?).getD ""

end Description

/-- Where a description has got to: the name of the state, the tape, the steps that may still be
attempted, and those taken. -/
structure Situation where
  state : String
  tape : Tape
  remaining : Int
  steps : Nat

namespace Situation

open Description (Marker)

variable (d : Description) (settings : Settings)

def initial (content : Array Symbol) : Situation where
  state := d.startName
  tape := .ofContent content settings.blank
  remaining := settings.budget
  steps := 0

def status (x : Situation) : Status :=
  if x.state ∈ d.marked .accept then .accepted
  else if x.state ∈ d.marked .reject ∨ x.remaining < 0 then .rejected
  else .running

def outcome (x : Situation) : Outcome :=
  if x.state ∈ d.marked .accept then .accepted
  else if x.state ∈ d.marked .reject then .rejected
  else .budgetExhausted

/-- Does what the last line for the state and the symbol under the head says, and tells what that
was. Without such a line only the budget changes. -/
def step (x : Situation) : Except Fault Move × Situation :=
  match Description.lastLine d.transitions x.state x.tape.symbol with
  | some t =>
    (.ok { state := x.state, symbol := x.tape.symbol, head := x.tape.head, write := t.write,
           direction := t.direction },
     { state := t.next
       tape := x.tape.write t.write t.direction settings.blank
       remaining := x.remaining - 1
       steps := x.steps + 1 })
  | none =>
    (.error (.undefinedTransition x.state x.tape.symbol), { x with remaining := x.remaining - 1 })

/-- Takes up to `n` steps while it is running. After each, `note` adds to `acc` what an observer
keeps of the step. -/
def advance {σ : Type} (note : σ → Move → σ) :
    Nat → σ → Situation → Except Fault Unit × σ × Situation
  | 0, acc, x => (.ok (), acc, x)
  | n + 1, acc, x =>
    if x.status d = .running then
      match x.step d settings with
      | (.ok move, x) => advance note n (note acc move) x
      | (.error fault, x) => (.error fault, acc, x)
    else (.ok (), acc, x)

/-- Takes steps until it stops. Each costs a unit of budget, and without budget it does not go on.
-/
def run (x : Situation) : Except Fault Outcome × Situation :=
  match x.advance d settings (fun _ _ => ()) (x.remaining + 1).toNat () with
  | (.ok (), _, x) => (.ok (x.outcome d), x)
  | (.error fault, _, x) => (.error fault, x)

end Situation

end SingleTape
