import SingleTape.Proofs.Machine.Refinement

/-!
# How runs end

A run of a machine goes along the trajectory of the textbook machine until that halts, is stuck, or
the budget is used up, whichever comes first. The budget allows for one step more than it counts.
-/

namespace SingleTape.Machine

open Textbook (Config Input)

/-- A run of the machine gives this answer, after so many steps, in this configuration, and leaves
so much of the budget. -/
structure RunsTo (m : Machine) (answer : Except Fault Outcome) (steps : Nat) (c : Config StateId)
    (remaining : Int) : Prop where
  answer : m.run.1 = answer
  steps : m.run.2.steps = steps
  pictures : m.run.2.Pictures c
  remaining : m.run.2.remaining = remaining

def verdict (control : Control) (c : Config StateId) : Outcome :=
  if c.state = control.accept then .accepted else .rejected

def History.stepped (content : Array Symbol) (steps : Nat) : History where
  content
  inputs := List.replicate steps .scanned

/-- What holds of a machine during a run with the budget `budget` on a content. -/
structure Underway (control : Control) (settings : Settings) (content : Array Symbol)
    (m : Machine) : Prop where
  grounded : m.Grounded
  control_eq : m.control = control
  settings_eq : m.settings = settings
  represents : ∃ c, m.Represents (.stepped content m.steps) c
  remaining : m.remaining = settings.budget - m.steps
  steps_le : m.steps ≤ settings.budget + 1
  running : (Config.initial control.start content settings.blank).RunsUntil control.graph.rules
    control.accept control.reject m.steps

section Run

variable {control : Control} {settings : Settings} {content : Array Symbol}

/-- A machine during a run shows where the textbook machine is after as many steps. -/
theorem Underway.trajectory {m : Machine} (hm : m.Underway control settings content)
    {c : Config StateId} (hc : m.Represents (.stepped content m.steps) c) :
    (Config.initial control.start content settings.blank).trajectory control.graph.rules m.steps =
      some c := by
  have h := hc.after
  rw [origin, hm.control_eq, hm.settings_eq] at h
  exact h

theorem underway_fresh (hclosed : control.graph.Closed) (hstart : control.start ∈ control.graph) :
    (fresh control settings content).Underway control settings content where
  grounded := grounded_fresh hclosed hstart settings content
  control_eq := rfl
  settings_eq := rfl
  represents := ⟨_, represents_fresh control settings content⟩
  remaining := (Int.sub_zero _).symm
  steps_le := Nat.zero_le _
  running _ hj := absurd hj (Nat.not_lt_zero _)

/-- A machine that is running has not halted, and has budget for its next step. -/
theorem Underway.running_succ {m : Machine} (hm : m.Underway control settings content)
    (haccept : m.state ≠ control.accept) (hreject : m.state ≠ control.reject) :
    (Config.initial control.start content settings.blank).RunsUntil control.graph.rules
      control.accept control.reject (m.steps + 1) := by
  obtain ⟨c, hc⟩ := hm.represents
  intro j hj d hd hhalted
  by_cases hlt : j < m.steps
  · exact hm.running j hlt d hd hhalted
  · obtain rfl : j = m.steps := by omega
    rw [hm.trajectory hc] at hd
    cases hd
    rcases hhalted with h | h
    · exact haccept (hc.pictures.state.trans h)
    · exact hreject (hc.pictures.state.trans h)

/-- A run goes on step by step, with one unit of the budget for each. -/
theorem Underway.step {m m' : Machine} {move : Move} (hm : m.Underway control settings content)
    (hrun : m.status = .running) (hstep : m.step = (.ok move, m')) :
    m'.Underway control settings content := by
  obtain ⟨c, hc⟩ := hm.represents
  have hread : m.read (c.symbol .scanned) = (.ok move, m') := by
    rw [← hc.pictures.symbol]
    exact hstep
  obtain ⟨haccept, hreject, hbudget⟩ := status_eq_running_iff.1 hrun
  rw [hm.control_eq] at haccept hreject
  obtain ⟨d, hd⟩ := hc.read hm.grounded hread
  have hsteps : m'.steps = m.steps + 1 := by
    rw [hd.steps]
    show (List.replicate m.steps Input.scanned ++ [Input.scanned]).length = m.steps + 1
    rw [List.length_append, List.length_replicate]
    rfl
  have hgrounded := hm.grounded.read (c.symbol .scanned)
  have hcontrol := control_read m (c.symbol .scanned)
  have hsettings := settings_read m (c.symbol .scanned)
  have hremaining := remaining_read m (c.symbol .scanned)
  rw [hread] at hgrounded hcontrol hsettings hremaining
  -- What the read does to each field, told of the machine that it leaves.
  have hpaid := hm.remaining
  refine ⟨hgrounded, hcontrol.trans hm.control_eq, hsettings.trans hm.settings_eq, ⟨d, ?_⟩, ?_, ?_,
    ?_⟩
  · rw [hsteps]
    have hpush : (History.stepped content m.steps).push [.scanned] =
        .stepped content (m.steps + 1) := by
      unfold History.push History.stepped
      rw [List.replicate_succ']
    rw [← hpush]
    exact hd
  · show m'.remaining = _
    rw [hsteps]
    simp only at hremaining
    omega
  · omega
  · rw [hsteps]
    exact hm.running_succ haccept hreject

/-- The ways in which a run on a content can end: the answer, the steps taken, the configuration,
and what is left of the budget. -/
inductive Ending (control : Control) (settings : Settings) (content : Array Symbol) :
    Except Fault Outcome → Nat → Config StateId → Int → Prop where
  | halted {steps : Nat} {c : Config StateId}
      (h : (Config.initial control.start content settings.blank).HaltsAt control.graph.rules
        control.accept control.reject steps c)
      (hle : steps ≤ settings.budget + 1) :
      Ending control settings content (.ok (verdict control c)) steps c (settings.budget - steps)
  | stuck {steps : Nat} {c : Config StateId} {q : State}
      (h : (Config.initial control.start content settings.blank).StuckAt control.graph.rules
        control.accept control.reject steps c)
      (hle : steps ≤ settings.budget) (hq : control.graph.get? c.state = some q) :
      Ending control settings content (.error (.undefinedTransition q.name (c.cell c.head))) steps c
        (settings.budget - steps - 1)
  | exhausted {c : Config StateId}
      (h : (Config.initial control.start content settings.blank).trajectory control.graph.rules
        (settings.budget + 1) = some c)
      (hrun : (Config.initial control.start content settings.blank).RunsUntil control.graph.rules
        control.accept control.reject (settings.budget + 2)) :
      Ending control settings content (.ok .budgetExhausted) (settings.budget + 1) c (-1)

/-- Where the run stops it has halted, or there is no budget left. -/
theorem Underway.ending_of_stopped {m : Machine} (hm : m.Underway control settings content)
    {c : Config StateId} (hc : m.Represents (.stepped content m.steps) c)
    (hstop : m.status ≠ .running) :
    Ending control settings content (.ok m.outcome) m.steps c m.remaining := by
  have hreached := hm.trajectory hc
  have hstate := hc.pictures.state
  have hpaid := hm.remaining
  -- Acceptance counts before rejection, and both before an empty budget.
  by_cases haccept : m.state = control.accept
  · have houtcome : m.outcome = verdict control c := by
      unfold outcome isAccepted verdict
      rw [hm.control_eq, ← hstate, if_pos haccept, if_pos (decide_eq_true haccept)]
    rw [houtcome, hpaid]
    exact .halted ⟨hreached, .inl (hstate ▸ haccept), hm.running⟩ hm.steps_le
  · by_cases hreject : m.state = control.reject
    · have houtcome : m.outcome = verdict control c := by
        unfold outcome isAccepted verdict
        rw [hm.control_eq, ← hstate, if_neg haccept, if_neg (by simpa using haccept),
          if_pos hreject]
      rw [houtcome, hpaid]
      exact .halted ⟨hreached, .inr (hstate ▸ hreject), hm.running⟩ hm.steps_le
    -- In neither end state only the budget can have stopped the machine.
    · have hspent : m.remaining < 0 := by
        by_contra hleft
        apply hstop
        rw [status_eq_running_iff, hm.control_eq]
        exact ⟨haccept, hreject, by omega⟩
      have hle := hm.steps_le
      have hsteps : m.steps = settings.budget + 1 := by omega
      have houtcome : m.outcome = .budgetExhausted := by
        unfold outcome isAccepted
        rw [hm.control_eq, if_neg (by simpa using haccept), if_neg hreject]
      have hrunning := hm.running_succ haccept hreject
      rw [hsteps] at hreached hrunning
      rw [houtcome, hsteps, show m.remaining = -1 by omega]
      exact .exhausted hreached hrunning

/-- A step of a run fails where the trajectory is stuck. -/
theorem Underway.ending_of_failed {m m' : Machine} {fault : Fault}
    (hm : m.Underway control settings content) {c : Config StateId}
    (hc : m.Represents (.stepped content m.steps) c) (hrun : m.status = .running)
    (hfail : m.step = (.error fault, m')) :
    m' = m.charge ∧
      Ending control settings content (.error fault) m.steps c (m.remaining - 1) := by
  obtain ⟨haccept, hreject, hbudget⟩ := status_eq_running_iff.1 hrun
  rw [hm.control_eq] at haccept hreject
  have hpaid := hm.remaining
  have hsymbol := hc.pictures.symbol
  have hstate := hc.pictures.state
  -- Of the two things that a read can do only one is a failure.
  rcases read_cases hm.grounded.state m.tape.symbol with ⟨q, x, -, -, hok⟩ | ⟨q, hq, hx, herror⟩
  · rw [show m.read m.tape.symbol = m.step from rfl, hfail] at hok
    cases hok
  · rw [show m.read m.tape.symbol = m.step from rfl, hfail] at herror
    cases herror
    refine ⟨rfl, ?_⟩
    rw [hpaid, hsymbol]
    refine .stuck ⟨hm.trajectory hc, ?_, hm.running_succ haccept hreject⟩ (by omega) ?_
    · unfold Graph.rules Graph.transition?
      rw [← hm.control_eq, ← hstate, hq, Option.bind_some,
        show c.cell c.head = m.tape.symbol from hsymbol.symm, hx]
      rfl
    · rw [← hm.control_eq, ← hstate]
      exact hq

/-- A run on a fresh tape ends in one of these ways, and shows where it does. -/
theorem exists_ending (settings : Settings) (content : Array Symbol)
    (hclosed : control.graph.Closed) (hstart : control.start ∈ control.graph) :
    ∃ answer steps c remaining, Ending control settings content answer steps c remaining ∧
      (fresh control settings content).RunsTo answer steps c remaining ∧
      (fresh control settings content).run.2.Represents (.stepped content steps) c ∧
      (fresh control settings content).run.2.control = control ∧
      (fresh control settings content).run.2.settings = settings := by
  cases hrun : (fresh control settings content).runNoting (fun _ _ _ => ()) () with
  | mk result rest =>
    obtain ⟨acc, m'⟩ := rest
    have heq : (fresh control settings content).run = (result, m') := by
      rw [run, hrun]
    -- `Underway` holds where the run ends: at a machine that has stopped, or at one that cannot
    -- step.
    rcases runNoting_induction (P := fun _ d => d.Underway control settings content)
        (fun _ _ _ _ hd hstatus hstep => hd.step hstatus hstep) (underway_fresh hclosed hstart) hrun
      with ⟨rfl, hm', hstop⟩ | ⟨fault, d, rfl, hd, hstatus, hfail⟩
    · obtain ⟨c, hc⟩ := hm'.represents
      refine ⟨_, _, c, _, hm'.ending_of_stopped hc hstop, ?_⟩
      rw [heq]
      exact ⟨⟨by rw [heq], by rw [heq], by rw [heq]; exact hc.pictures, by rw [heq]⟩, hc,
        hm'.control_eq, hm'.settings_eq⟩
    · obtain ⟨c, hc⟩ := hd.represents
      obtain ⟨rfl, hending⟩ := hd.ending_of_failed hc hstatus hfail
      refine ⟨_, _, c, _, hending, ?_⟩
      rw [heq]
      exact ⟨⟨by rw [heq], by rw [heq]; rfl, by rw [heq]; exact hc.charge.pictures,
        by rw [heq]; rfl⟩, hc.charge, hd.control_eq, hd.settings_eq⟩

/-- There is just one way for a run to end. -/
theorem Ending.unique {answer answer' : Except Fault Outcome} {steps steps' : Nat}
    {c c' : Config StateId} {remaining remaining' : Int}
    (h : Ending control settings content answer steps c remaining)
    (h' : Ending control settings content answer' steps' c' remaining') :
    answer = answer' ∧ steps = steps' ∧ c = c' ∧ remaining = remaining' := by
  -- A run that halts is not stuck, and one that does either in time does not go on past the budget.
  cases h with
  | halted h hle =>
    cases h' with
    | halted h' hle' =>
      obtain ⟨rfl, rfl⟩ := h.unique h'
      exact ⟨rfl, rfl, rfl, rfl⟩
    | stuck h' hle' hq' => exact absurd h h'.not_haltsAt
    | exhausted h' hrun' => exact absurd h.halted (hrun' _ (by omega) _ h.reached)
  | stuck h hle hq =>
    cases h' with
    | halted h' hle' => exact absurd h' h.not_haltsAt
    | stuck h' hle' hq' =>
      obtain ⟨rfl, rfl⟩ := h.unique h'
      rw [hq] at hq'
      cases hq'
      exact ⟨rfl, rfl, rfl, rfl⟩
    | exhausted h' hrun' =>
      have := h.le h'
      omega
  | exhausted h hrun =>
    cases h' with
    | halted h' hle' => exact absurd h'.halted (hrun _ (by omega) _ h'.reached)
    | stuck h' hle' hq' =>
      have := h'.le h
      omega
    | exhausted h' hrun' =>
      rw [h] at h'
      cases h'
      exact ⟨rfl, rfl, rfl, rfl⟩

/-- A run ends as the textbook machine says it must, in each of the ways there are. -/
theorem runsTo_of_ending (hclosed : control.graph.Closed) (hstart : control.start ∈ control.graph)
    {answer : Except Fault Outcome} {steps : Nat} {c : Config StateId} {remaining : Int}
    (h : Ending control settings content answer steps c remaining) :
    (fresh control settings content).RunsTo answer steps c remaining := by
  obtain ⟨_, _, _, _, hending, hruns, -⟩ := exists_ending settings content hclosed hstart
  obtain ⟨rfl, rfl, rfl, rfl⟩ := hending.unique h
  exact hruns

/-- A trajectory that halts too late for the budget is still under way when that is used up. -/
theorem ending_of_haltsAt_late {steps : Nat} {c : Config StateId}
    (h : (Config.initial control.start content settings.blank).HaltsAt control.graph.rules
      control.accept control.reject steps c) (hlate : settings.budget + 1 < steps) :
    ∃ d, Ending control settings content (.ok .budgetExhausted) (settings.budget + 1) d (-1) := by
  obtain ⟨d, hd⟩ := Config.exists_trajectory_of_le h.reached (Nat.le_of_lt hlate)
  exact ⟨d, .exhausted hd fun j hj => h.first j (by omega)⟩

/-- A run takes at most one step more than its budget. -/
theorem Ending.steps_le {answer : Except Fault Outcome} {steps : Nat} {c : Config StateId}
    {remaining : Int} (h : Ending control settings content answer steps c remaining) :
    steps ≤ settings.budget + 1 := by
  cases h with
  | halted _ hle => exact hle
  | stuck _ hle => exact Nat.le_succ_of_le hle
  | exhausted => exact Nat.le_refl _

/-- A run takes at most one step more than there is budget. -/
theorem steps_run_fresh_le (settings : Settings) (content : Array Symbol)
    (hclosed : control.graph.Closed) (hstart : control.start ∈ control.graph) :
    (fresh control settings content).run.2.steps ≤ settings.budget + 1 := by
  obtain ⟨answer, steps, c, remaining, hending, hruns, -⟩ :=
    exists_ending settings content hclosed hstart
  rw [hruns.steps]
  exact hending.steps_le

/-- A run that does not use up its budget ends in the same way with a larger one. -/
theorem Ending.of_budget_le {settings' : Settings} {answer : Except Fault Outcome} {steps : Nat}
    {c : Config StateId} {remaining : Int}
    (h : Ending control settings content answer steps c remaining)
    (hanswer : answer ≠ .ok .budgetExhausted) (hblank : settings'.blank = settings.blank)
    (hbudget : settings.budget ≤ settings'.budget) :
    ∃ remaining', Ending control settings' content answer steps c remaining' := by
  cases h with
  | halted h hle =>
    rw [← hblank] at h
    exact ⟨_, .halted h (by omega)⟩
  | stuck h hle hq =>
    rw [← hblank] at h
    exact ⟨_, .stuck h (by omega) hq⟩
  | exhausted h hrun => exact absurd rfl hanswer

/-- After any calls a reset gives the machine that a new one would be. -/
theorem eq_fresh_of_reset {content₀ : Array Symbol} {m₀ m : Machine}
    (hcreate : create control settings content₀ = .ok m₀) (calls : List Call)
    (hreset : (m₀.after calls).reset content = .ok m) : m = fresh control settings content := by
  obtain ⟨-, -, -, rfl⟩ := create_eq_ok_iff.1 hcreate
  obtain ⟨-, hm⟩ := reset_eq_ok_iff.1 hreset
  rw [hm, control_after, settings_after]
  rfl

end Run

/-- What a run answers and leaves, once a content has been put on the tape, is decided by the
trajectory of the textbook machine and the budget: it is the first of halting, being stuck, and a
spent budget. A larger budget changes nothing unless the smaller one was spent. -/
theorem run_after_reset {control : Control} (hg : control.graph.Built) {settings : Settings}
    {content₀ content : Array Symbol} {m₀ m : Machine}
    (hcreate : create control settings content₀ = .ok m₀) (calls : List Call)
    (hreset : (m₀.after calls).reset content = .ok m) :
    (∀ steps c, (Config.initial control.start content settings.blank).HaltsAt control.graph.rules
        control.accept control.reject steps c → steps ≤ settings.budget + 1 →
      m.RunsTo (.ok (verdict control c)) steps c (settings.budget - steps)) ∧
    (∀ steps c, (Config.initial control.start content settings.blank).StuckAt control.graph.rules
        control.accept control.reject steps c → steps ≤ settings.budget →
      ∃ q, control.graph.get? c.state = some q ∧
        m.RunsTo (.error (.undefinedTransition q.name (c.cell c.head))) steps c
          (settings.budget - steps - 1)) ∧
    ((∀ steps c, (Config.initial control.start content settings.blank).HaltsAt control.graph.rules
        control.accept control.reject steps c → settings.budget + 1 < steps) →
      (∀ steps c, (Config.initial control.start content settings.blank).StuckAt control.graph.rules
        control.accept control.reject steps c → settings.budget < steps) →
      ∃ c, m.RunsTo (.ok .budgetExhausted) (settings.budget + 1) c (-1)) ∧
    (∀ (settings' : Settings) (content₁ : Array Symbol) (m₁ : Machine) (calls' : List Call)
        (m' : Machine), settings'.blank = settings.blank → settings.budget ≤ settings'.budget →
      create control settings' content₁ = .ok m₁ → (m₁.after calls').reset content = .ok m' →
      m.run.1 ≠ .ok .budgetExhausted →
      m'.run.1 = m.run.1 ∧ m'.run.2.steps = m.run.2.steps ∧ m'.run.2.tape = m.run.2.tape ∧
        m'.run.2.state = m.run.2.state) := by
  have hclosed := hg.closed
  have hstart := (Control.check_eq_ok_iff.1 (create_eq_ok_iff.1 hcreate).1).2.2
  have hm := eq_fresh_of_reset hcreate calls hreset
  subst hm
  -- The run ends in some way, and since ways to end are unique it is the way at hand.
  obtain ⟨answer, steps, c, remaining, hending, hruns, hrep, hcontrol, hsettings⟩ :=
    exists_ending settings content hclosed hstart
  refine ⟨fun T d hd hT => ?_, fun k d hd hk => ?_, fun hhalt hstuck => ?_, ?_⟩
  · obtain ⟨rfl, rfl, rfl, rfl⟩ := hending.unique (.halted hd hT)
    exact hruns
  · cases hending with
    | halted h hle => exact absurd h hd.not_haltsAt
    | stuck h hle hq =>
      obtain ⟨rfl, rfl⟩ := h.unique hd
      exact ⟨_, hq, hruns⟩
    | exhausted h hrun =>
      have := hd.le h
      omega
  · cases hending with
    | halted h hle =>
      have := hhalt _ _ h
      omega
    | stuck h hle hq =>
      have := hstuck _ _ h
      omega
    | exhausted h hrun => exact ⟨c, hruns⟩
  · intro settings' content₁ m₁ calls' m' hblank hbudget hcreate' hreset' hanswer
    have hm' := eq_fresh_of_reset hcreate' calls' hreset'
    subst hm'
    rw [hruns.answer] at hanswer
    -- The same ending, apart from what remains, is one under the larger budget.
    obtain ⟨remaining', hending'⟩ := hending.of_budget_le hanswer hblank hbudget
    obtain ⟨answer₁, steps₁, c₁, remaining₁, hending₁, hruns₁, hrep₁, hcontrol₁, hsettings₁⟩ :=
      exists_ending settings' content hclosed hstart
    obtain ⟨rfl, rfl, rfl, -⟩ := hending₁.unique hending'
    refine ⟨hruns₁.answer.trans hruns.answer.symm, hruns₁.steps.trans hruns.steps.symm,
      hrep.tape_eq hrep₁ (hcontrol₁.trans hcontrol.symm) ?_,
      hruns₁.pictures.state.trans hruns.pictures.state.symm⟩
    rw [hsettings₁, hsettings, hblank]

/-- A machine without any budget still takes the step that brings it to its accept state. -/
theorem run_after_reset_without_budget :
    ∃ m c, create .oneStep { budget := 0 } #["x"] = .ok m ∧ m.RunsTo (.ok .accepted) 1 c (-1) := by
  have hcreate :
      create .oneStep { budget := 0 } #["x"] = .ok (fresh .oneStep { budget := 0 } #["x"]) :=
    create_eq_ok (by decide) (by decide) (by decide) (by decide) (by decide) (by decide)
  have hreset := reset_eq_ok (fresh .oneStep { budget := 0 } #["x"]) #["x"] (by decide)
  refine ⟨_, (Config.initial ⟨0⟩ #["x"] "_").follow ⟨⟨1⟩, "y", .left⟩, hcreate, ?_⟩
  refine (run_after_reset ⟨_, rfl⟩ hcreate [] hreset).1 1 _ ⟨rfl, .inl rfl, ?_⟩ (by decide)
  intro j hj d hd hhalted
  obtain rfl : j = 0 := by omega
  cases hd
  rcases hhalted with h | h
  · exact absurd h (by decide)
  · exact absurd h (by decide)

end SingleTape.Machine
