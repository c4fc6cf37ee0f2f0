import SingleTape.Machine.Call
import SingleTape.Proofs.Graph.Closed
import SingleTape.Proofs.Machine.Creation

/-!
# Steps and runs

What a single step can do, and how a property of machines that steps keep is carried through a run.
A run is described without its bound: it goes on as long as the machine is running.
-/

namespace SingleTape.Machine

def moveAlong (m : Machine) (q : State) (s : Symbol) (x : Transition) : Move where
  state := q.name
  symbol := s
  head := m.tape.head
  write := x.write
  direction := x.direction

/-- From the first machine a step of a run leads to the second. -/
def Goes (m d : Machine) : Prop := m.status = .running ∧ ∃ move, m.step = (.ok move, d)

/-- What a run comes to after some steps that had this result: where they have led it goes on,
unless one of them failed. -/
def resume (d : Machine) : Except Fault Unit → Except Fault Outcome × Machine
  | .ok () => d.run
  | .error fault => (.error fault, d)

/-- The states that the machine is in or may be set to belong to its graph, which is closed. -/
structure Grounded (m : Machine) : Prop where
  closed : m.control.graph.Closed
  start : m.control.start ∈ m.control.graph
  state : m.state ∈ m.control.graph

section Projections

variable (m : Machine) (x : Transition)

@[simp] theorem control_charge : m.charge.control = m.control := rfl

@[simp] theorem settings_charge : m.charge.settings = m.settings := rfl

@[simp] theorem tape_charge : m.charge.tape = m.tape := rfl

@[simp] theorem state_charge : m.charge.state = m.state := rfl

@[simp] theorem steps_charge : m.charge.steps = m.steps := rfl

@[simp] theorem remaining_charge : m.charge.remaining = m.remaining - 1 := rfl

@[simp] theorem control_follow : (m.follow x).control = m.control := rfl

@[simp] theorem settings_follow : (m.follow x).settings = m.settings := rfl

@[simp] theorem tape_follow :
    (m.follow x).tape = m.tape.write x.write x.direction m.settings.blank := rfl

@[simp] theorem state_follow : (m.follow x).state = x.target := rfl

@[simp] theorem steps_follow : (m.follow x).steps = m.steps + 1 := rfl

@[simp] theorem remaining_follow : (m.follow x).remaining = m.remaining := rfl

end Projections

/-! ## What a step can do -/

theorem currentState_of_get? {m : Machine} {q : State}
    (hq : m.control.graph.get? m.state = some q) : m.currentState = .ok q := by
  rw [currentState, Graph.state, hq]

/-- A read of a symbol with an entry pays and follows it. -/
theorem read_of_get?_eq_some {m : Machine} {q : State} {s : Symbol} {x : Transition}
    (hq : m.control.graph.get? m.state = some q) (hx : q.table.get? s = some x) :
    m.read s = (.ok (m.moveAlong q s x), m.charge.follow x) := by
  have hentry : m.entry s = .ok (q, x) := by
    rw [entry, currentState_of_get? hq]
    show (q.lookup s >>= fun x => pure (q, x)) = _
    rw [State.lookup, hx]
    rfl
  rw [read, hentry]
  rfl

/-- A read of a symbol without an entry pays and fails. -/
theorem read_of_get?_eq_none {m : Machine} {q : State} {s : Symbol}
    (hq : m.control.graph.get? m.state = some q) (hx : q.table.get? s = none) :
    m.read s = (.error (.undefinedTransition q.name s), m.charge) := by
  have hentry : m.entry s = .error (.undefinedTransition q.name s) := by
    rw [entry, currentState_of_get? hq]
    show (q.lookup s >>= fun x => pure (q, x)) = _
    rw [State.lookup, hx]
    rfl
  rw [read, hentry]

/-- All that a step of a machine in a state of its graph can do: take the entry for the symbol, or
fail because there is none. -/
theorem read_cases {m : Machine} (hm : m.state ∈ m.control.graph) (s : Symbol) :
    (∃ q x, m.control.graph.get? m.state = some q ∧ q.table.get? s = some x ∧
      m.read s = (.ok (m.moveAlong q s x), m.charge.follow x)) ∨
    (∃ q, m.control.graph.get? m.state = some q ∧ q.table.get? s = none ∧
      m.read s = (.error (.undefinedTransition q.name s), m.charge)) := by
  obtain ⟨q, hq⟩ := Graph.exists_get?_of_mem hm
  cases hx : q.table.get? s with
  | some x => exact .inl ⟨q, x, hq, hx, read_of_get?_eq_some hq hx⟩
  | none => exact .inr ⟨q, hq, hx, read_of_get?_eq_none hq hx⟩

/-- A step that fails costs budget and does nothing else. -/
theorem charge_of_read {m d : Machine} {s : Symbol} {fault : Fault}
    (h : m.read s = (.error fault, d)) : d = m.charge := by
  unfold read at h
  split at h
  · cases h
  · cases h
    rfl

/-- Whether it succeeds or fails, a step costs one unit of budget. -/
theorem remaining_read (m : Machine) (s : Symbol) : (m.read s).2.remaining = m.remaining - 1 := by
  unfold read
  split <;> rfl

theorem steps_read (m : Machine) (s : Symbol) :
    (m.read s).2.steps = m.steps + if (m.read s).1.isOk then 1 else 0 := by
  unfold read
  split <;> rfl

theorem control_read (m : Machine) (s : Symbol) : (m.read s).2.control = m.control := by
  unfold read
  split <;> rfl

theorem settings_read (m : Machine) (s : Symbol) : (m.read s).2.settings = m.settings := by
  unfold read
  split <;> rfl

theorem Grounded.read {m : Machine} (hm : m.Grounded) (s : Symbol) : (m.read s).2.Grounded := by
  refine ⟨by rw [control_read]; exact hm.closed, by rw [control_read]; exact hm.start, ?_⟩
  rw [control_read]
  rcases read_cases hm.state s with ⟨q, x, hq, hx, hread⟩ | ⟨q, -, -, hread⟩
  · rw [hread]
    refine hm.closed m.state s x ?_
    rw [Graph.transition?, hq]
    exact hx
  · rw [hread]
    exact hm.state

theorem Goes.steps {m d : Machine} (h : Goes m d) : d.steps = m.steps + 1 := by
  obtain ⟨-, move, hstep⟩ := h
  have hsteps := steps_read m m.tape.symbol
  rwa [show m.read m.tape.symbol = _ from hstep] at hsteps

theorem Goes.grounded {m d : Machine} (h : Goes m d) (hm : m.Grounded) : d.Grounded := by
  obtain ⟨-, move, hstep⟩ := h
  have hd := hm.read m.tape.symbol
  rwa [show m.read m.tape.symbol = _ from hstep] at hd

/-! ## The bound of a run -/

/-- A machine goes on while it is in neither end state and the budget is not overdrawn. -/
theorem status_eq_running_iff {m : Machine} :
    m.status = .running ↔
      m.state ≠ m.control.accept ∧ m.state ≠ m.control.reject ∧ 0 ≤ m.remaining := by
  unfold status isAccepted isRejected
  by_cases haccept : m.state = m.control.accept
  · simp [haccept]
  · rw [if_neg (by simpa using haccept)]
    by_cases hreject : m.state = m.control.reject
    · simp [hreject]
    · simp [haccept, hreject]

theorem stepBound_pos_of_running {m : Machine} (h : m.status = .running) : 0 < m.stepBound := by
  have := (status_eq_running_iff.1 h).2.2
  rw [stepBound]
  omega

theorem stepBound_step (m : Machine) : m.step.2.stepBound = m.stepBound - 1 := by
  rw [stepBound, step, remaining_read, stepBound]
  omega

section Runs

variable {σ : Type} {note : σ → Move → Machine → σ}

/-- With its bound for the number of steps, an advance ends only where the machine has stopped. -/
theorem not_running_of_advance {n : Nat} {acc acc' : σ} {m m' : Machine}
    (hn : m.stepBound ≤ n) (h : m.advance note n acc = (.ok (), acc', m')) :
    m'.status ≠ .running := by
  -- The induction is on the steps that may be taken: there are as many as the bound, or more.
  induction n generalizing acc m with
  | zero =>
    cases h
    intro hrun
    have := stepBound_pos_of_running hrun
    omega
  | succ n ih =>
    unfold advance at h
    split at h
    · split at h
      · rename_i move d hstep
        have hd : d.stepBound = m.stepBound - 1 := by rw [← stepBound_step, hstep]
        exact ih (by omega) h
      · cases h
    · rename_i hstop
      cases h
      exact hstop

/-- A relation between an observer and a machine that successful steps keep holds at the end of an
advance, and where a step fails it holds before that step. -/
theorem advance_induction {P : σ → Machine → Prop}
    (hstep : ∀ acc m move m', P acc m → m.status = .running → m.step = (.ok move, m') →
      P (note acc move m') m')
    (n : Nat) {acc acc' : σ} {m m' : Machine} {result : Except Fault Unit} (hm : P acc m)
    (h : m.advance note n acc = (result, acc', m')) :
    (result = .ok () ∧ P acc' m') ∨
      ∃ fault d, result = .error fault ∧ P acc' d ∧ d.status = .running ∧
        d.step = (.error fault, m') := by
  -- The induction is on the steps that may be taken, with the invariant carried along.
  induction n generalizing acc m with
  | zero =>
    cases h
    exact .inl ⟨rfl, hm⟩
  | succ n ih =>
    unfold advance at h
    split at h
    · rename_i hrun
      split at h
      · rename_i move d hd
        exact ih (hstep acc m move d hm hrun hd) h
      · rename_i fault d hd
        cases h
        exact .inr ⟨fault, m, rfl, hm, hrun, hd⟩
    · cases h
      exact .inl ⟨rfl, hm⟩

/-- How a run can end, given a relation that successful steps keep: stopped, or at a step that
fails. -/
theorem runNoting_induction {P : σ → Machine → Prop}
    (hstep : ∀ acc m move m', P acc m → m.status = .running → m.step = (.ok move, m') →
      P (note acc move m') m')
    {acc acc' : σ} {m m' : Machine} {result : Except Fault Outcome} (hm : P acc m)
    (h : m.runNoting note acc = (result, acc', m')) :
    (result = .ok m'.outcome ∧ P acc' m' ∧ m'.status ≠ .running) ∨
      ∃ fault d, result = .error fault ∧ P acc' d ∧ d.status = .running ∧
        d.step = (.error fault, m') := by
  -- A run is an advance by the bound, after which the machine has stopped.
  unfold runNoting at h
  split at h
  · rename_i acc'' d hd
    cases h
    rcases advance_induction hstep m.stepBound hm hd with ⟨-, hP⟩ | ⟨fault, d, hfault, -⟩
    · exact .inl ⟨rfl, hP, not_running_of_advance (Nat.le_refl _) hd⟩
    · cases hfault
  · rename_i fault acc'' d hd
    cases h
    rcases advance_induction hstep m.stepBound hm hd with ⟨hok, -⟩ | ⟨fault', e, hfault, hP⟩
    · cases hok
    · cases hfault
      exact .inr ⟨fault, e, rfl, hP⟩

/-- A run is a loop: as long as the machine is running it takes a step, and ends if that fails. The
bound that makes it end is never felt. -/
theorem runNoting_eq (acc : σ) (m : Machine) :
    m.runNoting note acc =
      if m.status = .running then
        match m.step with
        | (.ok move, d) => d.runNoting note (note acc move d)
        | (.error fault, d) => (.error fault, acc, d)
      else (.ok m.outcome, acc, m) := by
  by_cases hrun : m.status = .running
  · obtain ⟨n, hn⟩ :=
      Nat.exists_eq_add_one_of_ne_zero (Nat.ne_of_gt (stepBound_pos_of_running hrun))
    -- After the first step the bound is that of the machine it leads to.
    have hstep := stepBound_step m
    rw [if_pos hrun, runNoting, hn, advance, if_pos hrun]
    cases hm : m.step with
    | mk result d =>
      cases result with
      | ok move =>
        have hd : d.stepBound = n := by
          rw [hm, hn] at hstep
          exact hstep
        show _ = d.runNoting note (note acc move d)
        rw [runNoting, hd]
      | error fault => rfl
  · rw [if_neg hrun, runNoting]
    cases m.stepBound with
    | zero => rfl
    | succ n => rw [advance, if_neg hrun]

/-- What an observer notes has no influence on the steps. -/
theorem advance_note {τ : Type} (note : σ → Move → Machine → σ) (note' : τ → Move → Machine → τ)
    (n : Nat) (acc : σ) (acc' : τ) (m : Machine) :
    (m.advance note n acc).1 = (m.advance note' n acc').1 ∧
      (m.advance note n acc).2.2 = (m.advance note' n acc').2.2 := by
  induction n generalizing acc acc' m with
  | zero => exact ⟨rfl, rfl⟩
  | succ n ih =>
    unfold advance
    by_cases hrun : m.status = .running
    · rw [if_pos hrun, if_pos hrun]
      cases hstep : m.step with
      | mk result d =>
        cases result with
        | ok move => exact ih (note acc move d) (note' acc' move d) d
        | error fault => exact ⟨rfl, rfl⟩
    · rw [if_neg hrun, if_neg hrun]
      exact ⟨rfl, rfl⟩

/-- Taking notes makes no difference to a run. -/
theorem runNoting_eq_run (note : σ → Move → Machine → σ) (acc : σ) (m : Machine) :
    (m.runNoting note acc).1 = m.run.1 ∧ (m.runNoting note acc).2.2 = m.run.2 := by
  have hadvance := advance_note note (fun _ _ _ => ()) m.stepBound acc () m
  unfold run runNoting
  cases hm : m.advance note m.stepBound acc with
  | mk result rest =>
    cases hm' : m.advance (fun _ _ _ => ()) m.stepBound () with
    | mk result' rest' =>
      rw [hm, hm'] at hadvance
      obtain ⟨rfl, hrest⟩ : result = result' ∧ rest.2 = rest'.2 := hadvance
      cases result with
      | ok _ => exact ⟨congrArg (fun d : Machine => Except.ok d.outcome) hrest, hrest⟩
      | error _ => exact ⟨rfl, hrest⟩

/-! ## A run step by step -/

section Loop

variable {m d : Machine}

theorem run_of_not_running (h : m.status ≠ .running) : m.run = (.ok m.outcome, m) := by
  rw [run, runNoting_eq, if_neg h]

theorem run_of_step_ok (hrun : m.status = .running) {move : Move} (h : m.step = (.ok move, d)) :
    m.run = d.run := by
  rw [run, runNoting_eq, if_pos hrun, h]
  rfl

theorem run_of_step_error (hrun : m.status = .running) {fault : Fault}
    (h : m.step = (.error fault, d)) : m.run = (.error fault, d) := by
  rw [run, runNoting_eq, if_pos hrun, h]

/-- It makes no difference to a run whether some of its steps are taken before. -/
theorem run_of_advance {n : Nat} {acc acc' : σ} {result : Except Fault Unit}
    (h : m.advance note n acc = (result, acc', d)) :
    m.run = d.resume result := by
  -- The induction is on the steps taken, each of which leaves the rest of the run as it is.
  induction n generalizing acc m with
  | zero =>
    cases h
    rfl
  | succ n ih =>
    unfold advance at h
    split at h
    · rename_i hrun
      split at h
      · rename_i move e hstep
        rw [run_of_step_ok hrun hstep]
        exact ih h
      · rename_i fault e hstep
        cases h
        exact run_of_step_error hrun hstep
    · cases h
      rfl

end Loop

/-! ## What a run reads -/

section Reads

/-- The reads of a run, one after the other, with what each gives. -/
def runReads (m : Machine) : List (Except Fault Move) :=
  if _hrun : m.status = .running then
    match _hstep : m.step with
    | (.ok move, d) => .ok move :: d.runReads
    | (.error fault, _) => [.error fault]
  else []
termination_by m.stepBound
decreasing_by
  have hpos := stepBound_pos_of_running _hrun
  have hless := stepBound_step m
  rw [_hstep] at hless
  simp only at hless
  omega

def reads (m : Machine) : Call → List (Except Fault Move)
  | .reset _ => []
  | .read s => [(m.read s).1]
  | .step => [m.step.1]
  | .run => m.runReads
  | .begin => m.runReads

variable {m d : Machine} {fault : Fault}

theorem runReads_of_not_running (h : m.status ≠ .running) : m.runReads = [] := by
  rw [runReads, dif_neg h]

/-- A run reads once for its first step, and then what it reads from there. -/
theorem runReads_of_step_ok (hrun : m.status = .running) {move : Move}
    (h : m.step = (.ok move, d)) : m.runReads = .ok move :: d.runReads := by
  rw [runReads, dif_pos hrun]
  split
  · rename_i hstep
    cases h.symm.trans hstep
    rfl
  · rename_i hstep
    cases h.symm.trans hstep

/-- A failing step is the last read of a run. -/
theorem runReads_of_step_error (hrun : m.status = .running)
    (h : m.step = (.error fault, d)) : m.runReads = [.error fault] := by
  rw [runReads, dif_pos hrun]
  split
  · rename_i hstep
    cases h.symm.trans hstep
  · rename_i hstep
    cases h.symm.trans hstep
    rfl

end Reads

/-- Logging makes no difference to a run. -/
theorem runLogged_eq_run (m : Machine) :
    m.runLogged.1 = m.run.1 ∧ m.runLogged.2.2 = m.run.2 := by
  have hrun := runNoting_eq_run (fun events move _ => events.push (Event.stepped move)) #[] m
  unfold runLogged
  cases hm : m.runNoting (fun events move _ => events.push (Event.stepped move)) #[] with
  | mk result rest =>
    rw [hm] at hrun
    cases result with
    | ok outcome => exact hrun
    | error fault => exact hrun

theorem perform_run (m : Machine) :
    (m.perform .run).1 = m.run.1.map Reply.outcome ∧ (m.perform .run).2.2 = m.run.2 := by
  obtain ⟨hresult, hmachine⟩ := runLogged_eq_run m
  exact ⟨congrArg (Except.map Reply.outcome) hresult, hmachine⟩

/-- To begin is to run, with no more of an answer than whether the machine accepts. -/
theorem perform_begin (m : Machine) :
    (m.perform .begin).1 = m.run.1.map (fun o => Reply.verdict o.isAccepted) ∧
      (m.perform .begin).2.2 = m.run.2 := by
  obtain ⟨hresult, hmachine⟩ := runLogged_eq_run m
  exact ⟨congrArg (Except.map fun o : Outcome => Reply.verdict o.isAccepted) hresult, hmachine⟩

/-! ## Invariants -/

section Preserved

variable {P : Machine → Prop} (hread : ∀ m s, P m → P (m.read s).2)

include hread

theorem step_preserves {m m' : Machine} {result : Except Fault Move} (hm : P m)
    (h : m.step = (result, m')) : P m' := by
  have hm' := hread m m.tape.symbol hm
  rwa [show m.read m.tape.symbol = _ from h] at hm'

/-- What every step keeps a run keeps. -/
theorem runNoting_preserves {acc acc' : σ} {m m' : Machine} {result : Except Fault Outcome}
    (hm : P m) (h : m.runNoting note acc = (result, acc', m')) : P m' := by
  rcases runNoting_induction (P := fun _ d => P d)
      (fun _ _ _ _ hd _ hstep => step_preserves hread hd hstep) hm h with
    ⟨-, hm', -⟩ | ⟨fault, d, -, hd, -, hfail⟩
  · exact hm'
  · exact step_preserves hread hd hfail

/-- A run fails at a step that it takes while the machine is running. -/
theorem exists_failing_step_of_runNoting {acc acc' : σ} {m m' : Machine} {fault : Fault} (hm : P m)
    (h : m.runNoting note acc = (.error fault, acc', m')) :
    ∃ d, P d ∧ d.status = .running ∧ d.step.1 = .error fault := by
  rcases runNoting_induction (P := fun _ d => P d)
      (fun _ _ _ _ hd _ hstep => step_preserves hread hd hstep) hm h with
    ⟨hok, -⟩ | ⟨fault', d, hfault, hd, hrun, hfail⟩
  · cases hok
  · cases hfault
    exact ⟨d, hd, hrun, by rw [hfail]⟩

end Preserved

end Runs

theorem machine_perform_read (m : Machine) (s : Symbol) :
    (m.perform (.read s)).2.2 = (m.read s).2 := by
  rw [perform]
  split
  · rename_i h
    rw [h]
  · rename_i h
    rw [h]

theorem machine_perform_step (m : Machine) :
    (m.perform .step).2.2 = (m.read m.tape.symbol).2 := by
  rw [perform, step]
  split
  · rename_i h
    rw [h]
  · rename_i h
    rw [h]

section Calls

variable {P : Machine → Prop} (hread : ∀ m s, P m → P (m.read s).2)

include hread

/-- What every read keeps, a run keeps. -/
theorem runLogged_preserves {m : Machine} (hm : P m) : P m.runLogged.2.2 := by
  unfold runLogged
  split
  · rename_i outcome events m' h
    exact runNoting_preserves hread hm h
  · rename_i fault events m' h
    exact runNoting_preserves hread hm h

/-- What steps keep, and the contents that are put on the tape, every call keeps. -/
theorem perform_preserves {c : Call}
    (hreset : ∀ content, c = .reset content → ∀ m, P m → P (fresh m.control m.settings content))
    {m : Machine} (hm : P m) : P (m.perform c).2.2 := by
  cases c with
  | reset content =>
    rw [perform]
    cases hr : m.reset content with
    | ok m' =>
      obtain ⟨-, rfl⟩ := reset_eq_ok_iff.1 hr
      exact hreset content rfl m hm
    | error fault => exact hm
  | read s =>
    rw [machine_perform_read]
    exact hread m s hm
  | step =>
    rw [machine_perform_step]
    exact hread m m.tape.symbol hm
  | run => exact runLogged_preserves hread hm
  | begin => exact runLogged_preserves hread hm

/-- What every read keeps and every fresh machine has is kept by calls of any kind. -/
theorem after_preserves {calls : List Call}
    (hreset : ∀ content, .reset content ∈ calls → ∀ m, P m →
      P (fresh m.control m.settings content))
    {m : Machine} (hm : P m) : P (m.after calls) := by
  induction calls generalizing m with
  | nil => exact hm
  | cons c calls ih =>
    refine ih (fun content hmem => hreset content (List.mem_cons_of_mem c hmem)) ?_
    exact perform_preserves hread (fun content hc => hreset content (hc ▸ List.mem_cons_self)) hm

/-- A run that fails has met a step that fails, at a machine with all that reads keep. -/
theorem exists_failing_step_of_run {m : Machine} {fault : Fault} (hm : P m)
    (h : m.run.1 = .error fault) : ∃ d, P d ∧ d.status = .running ∧ d.step.1 = .error fault := by
  unfold run at h
  cases hrun : m.runNoting (fun _ _ _ => ()) () with
  | mk result rest =>
    rw [hrun] at h
    obtain rfl : result = .error fault := h
    exact exists_failing_step_of_runNoting hread hm hrun

/-- The same for a run that is logged. -/
theorem exists_failing_step_of_runLogged {m : Machine} {fault : Fault} (hm : P m)
    (h : m.runLogged.1 = .error fault) :
    ∃ d, P d ∧ d.status = .running ∧ d.step.1 = .error fault := by
  unfold runLogged at h
  split at h
  · cases h
  · rename_i hrun
    cases h
    exact exists_failing_step_of_runNoting hread hm hrun

/-- Where a call that goes by the symbols on the tape fails, a step does. -/
theorem exists_failing_step_of_perform {m : Machine} {c : Call} {fault : Fault} (hm : P m)
    (hc : c ∈ [Call.step, .run, .begin]) (h : (m.perform c).1 = .error fault) :
    ∃ d, P d ∧ d.step.1 = .error fault := by
  simp only [List.mem_cons, List.not_mem_nil, or_false] at hc
  rcases hc with rfl | rfl | rfl
  · refine ⟨m, hm, ?_⟩
    rw [perform] at h
    split at h
    · cases h
    · rename_i hstep
      cases h
      rw [hstep]
  · obtain ⟨d, hd, -, hfail⟩ := exists_failing_step_of_runLogged hread hm (map_eq_error_iff.1 h)
    exact ⟨d, hd, hfail⟩
  · obtain ⟨d, hd, -, hfail⟩ := exists_failing_step_of_runLogged hread hm (map_eq_error_iff.1 h)
    exact ⟨d, hd, hfail⟩

end Calls

section Within

variable {m : Machine}

theorem grounded_fresh {control : Control} (hclosed : control.graph.Closed)
    (hstart : control.start ∈ control.graph) (settings : Settings) (content : Array Symbol) :
    (fresh control settings content).Grounded :=
  ⟨hclosed, hstart, hstart⟩

theorem Grounded.fresh (hm : m.Grounded) (content : Array Symbol) :
    (fresh m.control m.settings content).Grounded :=
  grounded_fresh hm.closed hm.start m.settings content

theorem Grounded.perform (hm : m.Grounded) (c : Call) : (m.perform c).2.2.Grounded :=
  perform_preserves (fun _ s hd => hd.read s) (fun content _ _ hd => hd.fresh content) hm

/-- No calls lead out of a graph that is closed. -/
theorem Grounded.after (hm : m.Grounded) (calls : List Call) : (m.after calls).Grounded :=
  after_preserves (fun _ s hd => hd.read s) (fun content _ _ hd => hd.fresh content) hm

end Within

theorem control_after (m : Machine) (calls : List Call) : (m.after calls).control = m.control :=
  after_preserves (P := fun d => d.control = m.control)
    (fun d s hd => (control_read d s).trans hd) (fun _ _ _ hd => hd) rfl

theorem settings_after (m : Machine) (calls : List Call) : (m.after calls).settings = m.settings :=
  after_preserves (P := fun d => d.settings = m.settings)
    (fun d s hd => (settings_read d s).trans hd) (fun _ _ _ hd => hd) rfl

theorem control_run (m : Machine) : m.run.2.control = m.control :=
  runNoting_preserves (P := fun d => d.control = m.control)
    (fun d s hd => (control_read d s).trans hd) rfl
    (Prod.ext rfl rfl : m.runNoting (fun _ _ _ => ()) () = (_, _, m.run.2))

theorem settings_run (m : Machine) : m.run.2.settings = m.settings :=
  runNoting_preserves (P := fun d => d.settings = m.settings)
    (fun d s hd => (settings_read d s).trans hd) rfl
    (Prod.ext rfl rfl : m.runNoting (fun _ _ _ => ()) () = (_, _, m.run.2))

end SingleTape.Machine
