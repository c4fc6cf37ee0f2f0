import SingleTape.Proofs.Machine.Refinement

/-!
# Machines under other names

Two controls that say the same with other handles, other names of states and other symbols make
machines that go through the same steps side by side. No step looks into a name or a symbol, and
handles are only compared.
-/

namespace SingleTape

open Textbook (Rule)

structure Renaming where
  handle : StateId → StateId
  name : String → String
  symbol : Symbol → Symbol

namespace Renaming

variable (r : Renaming)

def rule (x : Rule StateId) : Rule StateId where
  next := r.handle x.next
  write := r.symbol x.write
  direction := x.direction

def move (x : Move) : Move where
  state := r.name x.state
  symbol := r.symbol x.symbol
  head := x.head
  write := r.symbol x.write
  direction := x.direction

/-- The fault with its state and symbol renamed, if it is one of a step. -/
def fault : Fault → Fault
  | .undefinedTransition q s => .undefinedTransition (r.name q) (r.symbol s)
  | f => f

/-- A renaming that changes no name and no symbol changes no fault. -/
theorem fault_eq_self (hname : r.name = id) (hsymbol : r.symbol = id) (f : Fault) :
    r.fault f = f := by
  cases f with
  | undefinedTransition q s => rw [fault, hname, hsymbol, id, id]
  | _ => rfl

end Renaming

def Tape.map (f : Symbol → Symbol) (t : Tape) : Tape where
  cells := t.cells.map f
  head := t.head
  head_lt_size := by simpa using t.head_lt_size

namespace Tape

variable (f : Symbol → Symbol) (t : Tape)

@[simp] theorem head_map : (t.map f).head = t.head := rfl

@[simp] theorem cells_map : (t.map f).cells = t.cells.map f := rfl

theorem map_id : t.map id = t := ext_cells (Array.map_id _) rfl

@[simp] theorem size_map : (t.map f).size = t.size := Array.size_map

theorem symbol_map : (t.map f).symbol = f t.symbol :=
  Array.getElem_map f ((Array.size_map).symm ▸ t.head_lt_size)

theorem map_ofContent (content : Array Symbol) (blank : Symbol) :
    (ofContent content blank).map f = ofContent (content.map f) (f blank) :=
  ext_cells Array.map_push rfl

/-- Writing and renaming can be done in either order. -/
theorem map_write (s : Symbol) (direction : Direction) (blank : Symbol) :
    (t.write s direction blank).map f = (t.map f).write (f s) direction (f blank) := by
  apply ext_cells
  · rw [cells_map, cells_write, cells_write]
    by_cases hgrow : t.head + 1 < t.size
    · rw [if_pos hgrow, if_pos (by simpa using hgrow), Array.map_set]
      rfl
    · rw [if_neg hgrow, if_neg (by simpa using hgrow), Array.map_push, Array.map_set]
      rfl
  · rw [head_map, head_write, head_write, head_map]

end Tape

/-- The second control is the first one renamed, as far as states of its graph go. -/
structure Control.Corresponds (r : Renaming) (c c' : Control) : Prop where
  name : ∀ {id q}, c.graph.get? id = some q →
    (c'.graph.get? (r.handle id)).map (·.name) = some (r.name q.name)
  rules : ∀ id ∈ c.graph, ∀ s,
    c'.graph.rules (r.handle id) (r.symbol s) = (c.graph.rules id s).map r.rule
  start : c'.start = r.handle c.start
  accept : ∀ id ∈ c.graph, (r.handle id = c'.accept ↔ id = c.accept)
  reject : ∀ id ∈ c.graph, (r.handle id = c'.reject ↔ id = c.reject)

namespace Machine

/-- The second machine is the first one renamed, in the middle of the same work. -/
structure Mirrors (r : Renaming) (m m' : Machine) : Prop where
  grounded : m.Grounded
  control : m.control.Corresponds r m'.control
  blank : m'.settings.blank = r.symbol m.settings.blank
  state : m'.state = r.handle m.state
  tape : m'.tape = m.tape.map r.symbol
  remaining : m'.remaining = m.remaining
  steps : m'.steps = m.steps

variable {r : Renaming} {m m' : Machine}

/-- Fresh machines over corresponding controls mirror each other. -/
theorem mirrors_fresh {c c' : Control} (hc : c.Corresponds r c') (hclosed : c.graph.Closed)
    (hstart : c.start ∈ c.graph) {settings settings' : Settings}
    (hblank : settings'.blank = r.symbol settings.blank)
    (hbudget : settings'.budget = settings.budget) (content : Array Symbol) :
    (fresh c settings content).Mirrors r (fresh c' settings' (content.map r.symbol)) where
  grounded := grounded_fresh hclosed hstart settings content
  control := hc
  blank := hblank
  state := hc.start
  tape := by
    show Tape.ofContent _ _ = (Tape.ofContent _ _).map _
    rw [Tape.map_ofContent, hblank]
  remaining := by
    show (settings'.budget : Int) = settings.budget
    rw [hbudget]
  steps := rfl

theorem Mirrors.isAccepted (h : m.Mirrors r m') : m'.isAccepted = m.isAccepted := by
  unfold Machine.isAccepted
  rw [h.state]
  exact decide_eq_decide.mpr (h.control.accept m.state h.grounded.state)

/-- Machines that mirror each other go on, or stop, together. -/
theorem Mirrors.status (h : m.Mirrors r m') : m'.status = m.status := by
  have hrejected : m'.isRejected = m.isRejected := by
    unfold isRejected
    rw [h.state, h.remaining, decide_eq_decide.mpr (h.control.reject m.state h.grounded.state)]
  unfold Machine.status
  rw [h.isAccepted, hrejected]

theorem Mirrors.outcome (h : m.Mirrors r m') : m'.outcome = m.outcome := by
  unfold Machine.outcome
  rw [h.isAccepted, h.state, if_congr (h.control.reject m.state h.grounded.state) rfl rfl]

/-- The name of the current state is the renamed one. -/
theorem Mirrors.currentState (h : m.Mirrors r m') :
    m'.currentState.map (·.name) = m.currentState.map fun q => r.name q.name := by
  obtain ⟨q, hq⟩ := Graph.exists_get?_of_mem h.grounded.state
  obtain ⟨q', hq', hname⟩ := Option.map_eq_some_iff.mp (h.control.name hq)
  rw [← h.state] at hq'
  rw [currentState_of_get? hq, currentState_of_get? hq']
  exact congrArg Except.ok hname

theorem Mirrors.charge (h : m.Mirrors r m') : m.charge.Mirrors r m'.charge where
  grounded := ⟨h.grounded.closed, h.grounded.start, h.grounded.state⟩
  control := h.control
  blank := h.blank
  state := h.state
  tape := h.tape
  remaining := by rw [remaining_charge, remaining_charge, h.remaining]
  steps := h.steps

/-- Taking an entry and taking the entry it is renamed to. -/
theorem Mirrors.follow (h : m.Mirrors r m') {x y : Transition}
    (hx : x.target ∈ m.control.graph) (htarget : y.target = r.handle x.target)
    (hwrite : y.write = r.symbol x.write) (hdir : y.direction = x.direction) :
    (m.follow x).Mirrors r (m'.follow y) where
  grounded := ⟨h.grounded.closed, h.grounded.start, hx⟩
  control := h.control
  blank := h.blank
  state := htarget
  tape := by rw [tape_follow, tape_follow, h.tape, h.blank, hwrite, hdir, Tape.map_write]
  remaining := h.remaining
  steps := by rw [steps_follow, steps_follow, h.steps]

/-- Reading a symbol and reading the symbol it is renamed to have the same result, renamed, and lead
to machines that mirror each other again. -/
theorem Mirrors.read (h : m.Mirrors r m') (s : Symbol) :
    (m'.read (r.symbol s)).1 = ((m.read s).1.map r.move).mapError r.fault ∧
      (m.read s).2.Mirrors r (m'.read (r.symbol s)).2 := by
  have hrules := h.control.rules m.state h.grounded.state s
  rw [← h.state] at hrules
  -- Whether there is an entry is the same for both, as the rules correspond.
  rcases read_cases h.grounded.state s with ⟨q, x, hq, hx, hread⟩ | ⟨q, hq, hx, hread⟩
  · obtain ⟨q', hq', hname⟩ := Option.map_eq_some_iff.mp (h.control.name hq)
    rw [← h.state] at hq'
    simp only [Graph.rules, Graph.transition?, hq, hq', hx, Option.bind_some, Option.map_some,
      Option.map_eq_some_iff] at hrules
    obtain ⟨y, hy, heq⟩ := hrules
    obtain ⟨htarget, hwrite, hdir⟩ := Rule.mk.inj heq
    have hclosed : x.target ∈ m.control.graph := by
      apply h.grounded.closed m.state s x
      rw [Graph.transition?, hq]
      exact hx
    rw [hread, read_of_get?_eq_some hq' hy]
    refine ⟨?_, h.charge.follow hclosed htarget hwrite hdir⟩
    show Except.ok _ = Except.ok _
    rw [moveAlong, moveAlong, Renaming.move, hname, hwrite, hdir, h.tape]
    rfl
  · obtain ⟨q', hq', hname⟩ := Option.map_eq_some_iff.mp (h.control.name hq)
    rw [← h.state] at hq'
    simp only [Graph.rules, Graph.transition?, hq, hq', hx, Option.bind_some, Option.map_none,
      Option.map_eq_none_iff] at hrules
    rw [hread, read_of_get?_eq_none hq' hrules, hname]
    exact ⟨rfl, h.charge⟩

/-- A step of one is the renamed step of the other, with the renamed fault if it fails. -/
theorem Mirrors.step (h : m.Mirrors r m') :
    m'.step.1 = (m.step.1.map r.move).mapError r.fault ∧ m.step.2.Mirrors r m'.step.2 := by
  unfold Machine.step
  rw [h.tape, Tape.symbol_map]
  exact h.read m.tape.symbol

/-- Machines that mirror each other take their steps side by side. -/
theorem Mirrors.advance (h : m.Mirrors r m') (n : Nat) :
    (m'.advance (fun _ _ _ => ()) n ()).1 = (m.advance (fun _ _ _ => ()) n ()).1.mapError r.fault ∧
      (m.advance (fun _ _ _ => ()) n ()).2.2.Mirrors r
        (m'.advance (fun _ _ _ => ()) n ()).2.2 := by
  -- The induction is on how many steps may be taken.
  induction n generalizing m m' with
  | zero => exact ⟨rfl, h⟩
  | succ n ih =>
    unfold Machine.advance
    rw [h.status]
    by_cases hrun : m.status = .running
    · rw [if_pos hrun, if_pos hrun]
      obtain ⟨hresult, hnext⟩ := h.step
      cases hm : m.step with
      | mk result d =>
        cases hm' : m'.step with
        | mk result' d' =>
          rw [hm, hm'] at hresult hnext
          cases result with
          | ok move =>
            obtain rfl : result' = .ok (r.move move) := hresult
            exact ih hnext
          | error fault =>
            obtain rfl : result' = .error (r.fault fault) := hresult
            exact ⟨rfl, hnext⟩
    · rw [if_neg hrun, if_neg hrun]
      exact ⟨rfl, h⟩

/-- Runs of machines that mirror each other have the same answer, renamed, and leave machines that
mirror each other. -/
theorem Mirrors.run (h : m.Mirrors r m') :
    m'.run.1 = m.run.1.mapError r.fault ∧ m.run.2.Mirrors r m'.run.2 := by
  obtain ⟨hresult, hlast⟩ := h.advance m.stepBound
  have hbound : m'.stepBound = m.stepBound := by rw [stepBound, stepBound, h.remaining]
  unfold Machine.run runNoting
  rw [hbound]
  cases hm : m.advance (fun _ _ _ => ()) m.stepBound () with
  | mk result rest =>
    cases hm' : m'.advance (fun _ _ _ => ()) m.stepBound () with
    | mk result' rest' =>
      rw [hm, hm'] at hresult hlast
      cases result with
      | ok u =>
        obtain rfl : result' = .ok u := hresult
        exact ⟨congrArg Except.ok hlast.outcome, hlast⟩
      | error fault =>
        obtain rfl : result' = .error (r.fault fault) := hresult
        exact ⟨rfl, hlast⟩

end Machine

end SingleTape
