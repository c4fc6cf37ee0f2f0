import Mathlib.Logic.Relation
import SingleTape.Proofs.Machine.Ending

/-!
# What the budget is spent on

A unit of budget is spent by each symbol that is read, whether there is a transition for it or not,
and the steps are the reads for which there was one. So a run that fails can be tried again as long
as there is budget, always with the same answer, and after that there is none left to fail with.
-/

namespace SingleTape.Machine

/-- The reads since a content was last put on the tape, one call later. A content that is refused
changes nothing. -/
def record (m : Machine) (made : List (Except Fault Move)) : Call → List (Except Fault Move)
  | .reset content => if (m.reset content).isOk then [] else made
  | c => made ++ m.reads c

/-- The reads since a content was last put on the tape, after calls of which each is made to the
machine that the one before it left. -/
def readsSince (m : Machine) (made : List (Except Fault Move)) :
    List Call → List (Except Fault Move)
  | [] => made
  | c :: calls => readsSince (m.perform c).2.2 (m.record made c) calls

/-- What is gone of the budget is the number of reads made, and the steps are those that gave
something to do. -/
structure Accounts (m : Machine) (made : List (Except Fault Move)) : Prop where
  spent : m.settings.budget - m.remaining = made.length
  taken : m.steps = made.countP (·.isOk)

/-- The machine is in a state in which it would go on, but there is no next step. -/
structure Stuck (m : Machine) (fault : Fault) : Prop where
  accept : m.state ≠ m.control.accept
  reject : m.state ≠ m.control.reject
  entry : m.entry m.tape.symbol = .error fault

/-- Of runs tried one after the other, so many fail for this fault, and all further ones only tell
that there is no budget. -/
structure FailsFor (m : Machine) (fault : Fault) (n : Nat) : Prop where
  again : ∀ j < n, (m.after (List.replicate j .run)).run.1 = .error fault
  exhausted : ∀ j ≥ n, (m.after (List.replicate j .run)).run =
    (.ok .budgetExhausted, m.after (List.replicate j .run))

variable {m d : Machine} {made : List (Except Fault Move)} {fault : Fault}

/-! ## The account -/

section Account

theorem accounts_fresh (control : Control) (settings : Settings) (content : Array Symbol) :
    (fresh control settings content).Accounts [] where
  spent := Int.sub_self _
  taken := rfl

/-- A read costs one unit whether there is an entry or not, and counts as a step if there is one.
-/
theorem Accounts.read (hm : m.Accounts made) (s : Symbol) :
    (m.read s).2.Accounts (made ++ [(m.read s).1]) where
  spent := by
    have := hm.spent
    rw [settings_read, remaining_read, List.length_append, List.length_singleton]
    omega
  taken := by
    rw [steps_read, hm.taken, List.countP_append, List.countP_singleton]

theorem Accounts.step (hm : m.Accounts made) {result : Except Fault Move}
    (h : m.step = (result, d)) : d.Accounts (made ++ [result]) := by
  have hread := hm.read m.tape.symbol
  rwa [show m.read m.tape.symbol = _ from h] at hread

/-- A run keeps the account because each of its steps does. -/
theorem Accounts.run (hm : m.Accounts made) : m.run.2.Accounts (made ++ m.runReads) := by
  -- The induction is on the reads of the run.
  induction m using runReads.induct generalizing made with
  | case1 m hrun move d hstep ih =>
    rw [run_of_step_ok hrun hstep, runReads_of_step_ok hrun hstep, List.append_cons]
    exact ih (hm.step hstep)
  | case2 m hrun fault d hstep =>
    rw [run_of_step_error hrun hstep, runReads_of_step_error hrun hstep]
    exact hm.step hstep
  | case3 m hstop =>
    rw [run_of_not_running hstop, runReads_of_not_running hstop, List.append_nil]
    exact hm

/-- Every call keeps the account, and a reset that succeeds opens a new one. -/
theorem Accounts.perform (hm : m.Accounts made) (c : Call) :
    (m.perform c).2.2.Accounts (m.record made c) := by
  cases c with
  | reset content =>
    rw [Machine.perform, record]
    cases hreset : m.reset content with
    | ok d =>
      obtain ⟨-, rfl⟩ := reset_eq_ok_iff.mp hreset
      exact accounts_fresh _ _ _
    | error fault => exact hm
  | read s =>
    rw [machine_perform_read]
    exact hm.read s
  | step =>
    rw [machine_perform_step]
    exact hm.read m.tape.symbol
  | run =>
    rw [(perform_run m).2]
    exact hm.run
  | begin =>
    rw [(perform_begin m).2]
    exact hm.run

theorem Accounts.after (hm : m.Accounts made) (calls : List Call) :
    (m.after calls).Accounts (m.readsSince made calls) := by
  induction calls generalizing m made with
  | nil => exact hm
  | cons c calls ih => exact ih (hm.perform c)

end Account

/-! ## Runs that are tried again -/

section Again

/-- Why a run fails: it got to a machine whose next step does. -/
theorem exists_goes_of_run_eq_error (h : m.run = (.error fault, d)) :
    ∃ e, Relation.ReflTransGen Goes m e ∧ e.status = .running ∧ e.step = (.error fault, d) ∧
      d = e.charge := by
  induction m using runReads.induct with
  | case1 m hrun move e hstep ih =>
    rw [run_of_step_ok hrun hstep] at h
    obtain ⟨e', hgoes, hfail⟩ := ih h
    exact ⟨e', hgoes.head ⟨hrun, move, hstep⟩, hfail⟩
  | case2 m hrun fault' e hstep =>
    rw [run_of_step_error hrun hstep] at h
    cases h
    exact ⟨m, .refl, hrun, hstep, charge_of_read hstep⟩
  | case3 m hstop =>
    rw [run_of_not_running hstop] at h
    cases h

/-- A machine that a run has left without failing has stopped, so there is nothing more to do. -/
theorem run_again {o : Outcome} (h : m.run = (.ok o, d)) : d.run = (.ok o, d) := by
  induction m using runReads.induct with
  | case1 m hrun move e hstep ih =>
    rw [run_of_step_ok hrun hstep] at h
    exact ih h
  | case2 m hrun fault' e hstep =>
    rw [run_of_step_error hrun hstep] at h
    cases h
  | case3 m hstop =>
    have hstay := run_of_not_running hstop
    rw [hstay] at h
    cases h
    exact hstay

/-- A read that fails fails for want of an entry. -/
theorem entry_eq_error_of_read {s : Symbol} (h : m.read s = (.error fault, d)) :
    m.entry s = .error fault := by
  unfold read at h
  split at h
  · cases h
  · rename_i hentry
    cases h
    exact hentry

theorem stuck_of_step (hrun : m.status = .running) (h : m.step = (.error fault, d)) :
    m.Stuck fault := by
  obtain ⟨haccept, hreject, -⟩ := status_eq_running_iff.mp hrun
  exact ⟨haccept, hreject, entry_eq_error_of_read h⟩

theorem Stuck.charge (hm : m.Stuck fault) : m.charge.Stuck fault :=
  ⟨hm.accept, hm.reject, hm.entry⟩

/-- A stuck machine with budget left pays for one attempt and fails again. -/
theorem Stuck.run (hm : m.Stuck fault) (hbudget : 0 ≤ m.remaining) :
    m.run = (.error fault, m.charge) := by
  have hrun : m.status = .running := status_eq_running_iff.mpr ⟨hm.accept, hm.reject, hbudget⟩
  have hstep : m.step = (.error fault, m.charge) := by
    rw [step, read, hm.entry]
  exact run_of_step_error hrun hstep

/-- A stuck machine without budget left answers that there is none, and costs nothing more. -/
theorem Stuck.run_of_spent (hm : m.Stuck fault) (hspent : m.remaining < 0) :
    m.run = (.ok .budgetExhausted, m) := by
  have hstop : m.status ≠ .running := fun hrun => by
    have := (status_eq_running_iff.mp hrun).2.2
    omega
  have houtcome : m.outcome = .budgetExhausted := by
    rw [outcome, isAccepted, if_neg (by simpa using hm.accept), if_neg hm.reject]
  rw [run_of_not_running hstop, houtcome]

theorem after_replicate_succ (m : Machine) (j : Nat) :
    m.after (List.replicate (j + 1) .run) = m.run.2.after (List.replicate j .run) := by
  rw [← (perform_run m).2]
  rfl

/-- A run that leaves the machine as it was can be tried any number of times. -/
theorem after_replicate_of_run {o : Outcome} (h : m.run = (.ok o, m)) (j : Nat) :
    m.after (List.replicate j .run) = m := by
  induction j with
  | zero => rfl
  | succ j ih => rw [after_replicate_succ, h, ih]

/-- A machine that is stuck fails as often as there is budget, and from then on tells that there is
none. -/
theorem Stuck.failsFor (hm : m.Stuck fault) {n : Nat} (hn : m.remaining + 1 = n) :
    m.FailsFor fault n := by
  -- The induction is on how often the run can still fail, which is once more than there is budget.
  induction n generalizing m with
  | zero =>
    have hrun := hm.run_of_spent (by omega)
    refine ⟨fun j hj => absurd hj (Nat.not_lt_zero j), fun j _ => ?_⟩
    rw [after_replicate_of_run hrun]
    exact hrun
  | succ n ih =>
    have hrun := hm.run (by omega)
    have hnext := ih hm.charge (by rw [remaining_charge]; omega)
    constructor
    · intro j hj
      cases j with
      | zero =>
        show m.run.1 = _
        rw [hrun]
      | succ j =>
        rw [after_replicate_succ, hrun]
        exact hnext.again j (by omega)
    · intro j hj
      obtain ⟨j, rfl⟩ : ∃ i, j = i + 1 := ⟨j - 1, by omega⟩
      rw [after_replicate_succ, hrun]
      exact hnext.exhausted j (by omega)

end Again

/-- On a new tape no step can fail but for want of a transition, and none fails without budget. -/
theorem failsFor_of_run_eq_error {control : Control} {settings : Settings}
    {content : Array Symbol} (hclosed : control.graph.Closed)
    (hstart : control.start ∈ control.graph)
    (h : (fresh control settings content).run = (.error fault, d)) :
    (∃ q s, fault = .undefinedTransition q s) ∧ d.steps ≤ settings.budget ∧
      d.FailsFor fault (settings.budget - d.steps) := by
  obtain ⟨answer, steps, c, remaining, hending, hruns, -⟩ :=
    exists_ending settings content hclosed hstart
  have hanswer : (.error fault : Except Fault Outcome) = answer := by
    rw [← hruns.answer, h]
  have hsteps : d.steps = steps := by
    rw [← hruns.steps, h]
  have hremaining : d.remaining = remaining := by
    rw [← hruns.remaining, h]
  -- The machine that failed is stuck, and the steps it took tell what is left of its budget.
  obtain ⟨e, -, hrun, hfail, rfl⟩ := exists_goes_of_run_eq_error h
  have hstuck := (stuck_of_step hrun hfail).charge
  cases hending with
  | halted => cases hanswer
  | stuck hat hle hq =>
    cases hanswer
    exact ⟨⟨_, _, rfl⟩, by omega, hstuck.failsFor (by omega)⟩
  | exhausted => cases hanswer

/-- A failing read or step leaves the machine one unit poorer and otherwise as it was. -/
theorem charge_of_perform {c : Call} (hc : c = .step ∨ ∃ s, c = .read s)
    (h : (m.perform c).1 = .error fault) : (m.perform c).2.2 = m.charge := by
  rcases hc with rfl | ⟨s, rfl⟩
  · rw [perform] at h ⊢
    split at h
    · cases h
    · rename_i hstep
      exact charge_of_read hstep
  · rw [perform] at h ⊢
    split at h
    · cases h
    · rename_i hread
      exact charge_of_read hread

/-- A failing run gets somewhere by steps, and fails there as a single step would. -/
theorem exists_goes_of_perform {c : Call} (hc : c = .run ∨ c = .begin)
    (h : (m.perform c).1 = .error fault) :
    ∃ e, Relation.ReflTransGen Goes m e ∧ e.status = .running ∧ e.step.1 = .error fault ∧
      (m.perform c).2.2 = e.charge := by
  obtain ⟨hrun, hmachine⟩ : m.run.1 = .error fault ∧ (m.perform c).2.2 = m.run.2 := by
    rcases hc with rfl | rfl
    · rw [(perform_run m).1] at h
      exact ⟨map_eq_error_iff.1 h, (perform_run m).2⟩
    · rw [(perform_begin m).1] at h
      exact ⟨map_eq_error_iff.1 h, (perform_begin m).2⟩
  obtain ⟨e, hgoes, hstatus, hfail, hlast⟩ := exists_goes_of_run_eq_error (Prod.ext hrun rfl)
  exact ⟨e, hgoes, hstatus, congrArg Prod.fst hfail, hmachine.trans hlast⟩

/-- Whatever is asked of a machine, what is gone of its budget is the number of symbols read since a
content was last put on the tape, and its steps are the reads that did not fail. A read that fails,
also at the end of a run, costs one unit of budget and changes nothing else. A run that has ended
ends in the same way when it is tried again. One that has failed on a new tape fails again for the
same fault as often as there is budget, and from then on tells that there is none. -/
theorem budget_after_calls {control : Control} (hg : control.graph.Built) {settings : Settings}
    {content₀ : Array Symbol} {m₀ : Machine}
    (hcreate : create control settings content₀ = .ok m₀) (calls : List Call) :
    let m := m₀.after calls
    (settings.budget - m.remaining = (m₀.readsSince [] calls).length ∧
      m.steps = (m₀.readsSince [] calls).countP (·.isOk)) ∧
    (∀ c fault, (c = .step ∨ ∃ s, c = .read s) → (m.perform c).1 = .error fault →
      (m.perform c).2.2 = { m with remaining := m.remaining - 1 }) ∧
    (∀ c fault, (c = .run ∨ c = .begin) → (m.perform c).1 = .error fault →
      ∃ d, Relation.ReflTransGen Goes m d ∧ d.status = .running ∧ d.step.1 = .error fault ∧
        (m.perform c).2.2 = { d with remaining := d.remaining - 1 }) ∧
    (∀ o d, m.run = (.ok o, d) → d.run = (.ok o, d)) ∧
    (∀ content d fault d', m.reset content = .ok d → d.run = (.error fault, d') →
      (∃ q s, fault = .undefinedTransition q s) ∧ d'.steps ≤ settings.budget ∧
        d'.FailsFor fault (settings.budget - d'.steps)) := by
  have hclosed := hg.closed
  have hstart := (Control.check_eq_ok_iff.1 (create_eq_ok_iff.1 hcreate).1).2.2
  refine ⟨?_, ?_, ?_, fun o d => run_again, fun content d fault d' hreset hrun => ?_⟩
  -- The account of all reads since the last content.
  · obtain ⟨-, -, -, rfl⟩ := create_eq_ok_iff.1 hcreate
    have haccounts := (accounts_fresh control settings content₀).after calls
    have hspent := haccounts.spent
    rw [settings_after] at hspent
    exact ⟨hspent, haccounts.taken⟩
  · intro c fault hc hfail
    exact charge_of_perform hc hfail
  · intro c fault hc hfail
    exact exists_goes_of_perform hc hfail
  · have hd := eq_fresh_of_reset hcreate calls hreset
    subst hd
    exact failsFor_of_run_eq_error hclosed hstart hrun

def overX : Control where
  graph := Graph.after ∅ [.addState "q", .addState "a", .connect ⟨0⟩ "x" ⟨0⟩ "x" .right]
  start := ⟨0⟩
  accept := ⟨1⟩
  reject := ⟨1⟩

/-- Of a budget of three, the first run spends one unit on the `x` and one on the `z` behind it. -/
theorem budget_after_two_reads : ∃ m₀ d d', create overX { budget := 3 } #["x"] = .ok m₀ ∧
    (m₀.after [.step, .read "z"]).remaining = 1 ∧ (m₀.after [.step, .read "z"]).steps = 1 ∧
    (m₀.after [.step, .read "z"]).reset #["x", "z"] = .ok d ∧
    d.run = (.error (.undefinedTransition "q" "z"), d') ∧ d'.steps = 1 ∧
    d'.FailsFor (.undefinedTransition "q" "z") 2 := by
  have hcreate : create overX { budget := 3 } #["x"] = .ok (fresh overX { budget := 3 } #["x"]) :=
    create_eq_ok (by decide) (by decide) (by decide) (by decide) (by decide) (by decide)
  obtain ⟨⟨hspent, htaken⟩, -, -, -, hfails⟩ :=
    budget_after_calls ⟨_, rfl⟩ hcreate [.step, .read "z"]
  have hreset : ((fresh overX { budget := 3 } #["x"]).after [.step, .read "z"]).reset #["x", "z"] =
      .ok (fresh overX { budget := 3 } #["x", "z"]) := reset_eq_ok _ _ (by decide)
  obtain ⟨d', hrun, hsteps⟩ : ∃ d', (fresh overX { budget := 3 } #["x", "z"]).run =
      (.error (.undefinedTransition "q" "z"), d') ∧ d'.steps = 1 :=
    ⟨_, Prod.ext (by decide +kernel) rfl, by decide +kernel⟩
  obtain ⟨-, -, hagain⟩ := hfails _ _ _ _ hreset hrun
  rw [hsteps] at hagain
  have hreads : ((fresh overX { budget := 3 } #["x"]).readsSince [] [.step, .read "z"]).length =
      2 := rfl
  have hcount : ((fresh overX { budget := 3 } #["x"]).readsSince [] [.step, .read "z"]).countP
      (·.isOk) = 1 := by decide +kernel
  refine ⟨_, _, d', hcreate, ?_, htaken.trans hcount, hreset, hrun, hsteps, hagain⟩
  rw [hreads] at hspent
  change 3 - _ = (2 : Int) at hspent
  omega

end SingleTape.Machine
