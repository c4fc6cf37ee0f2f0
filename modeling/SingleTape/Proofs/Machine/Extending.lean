import SingleTape.Proofs.Machine.Ending

/-!
# What a run depends on

All that a run asks of its graph is the entry for the state it is in and the symbol under the head,
and in the accept and the reject state it asks nothing. So it goes the same way over a graph with
more states, more entries, other names, and whatever rows for these two states.
-/

namespace SingleTape

/-- The second control halts where the first one does, and has each entry that the first one has for
another state. -/
structure Control.Extends (c c' : Control) : Prop where
  accept : c'.accept = c.accept
  reject : c'.reject = c.reject
  entries : ∀ id s x, id ≠ c.accept → id ≠ c.reject →
    c.graph.transition? id s = some x → c'.graph.transition? id s = some x

namespace Machine

def under (m : Machine) (c : Control) : Machine := { m with control := c }

/-- The states that a run passes, the last one first. It takes a step in each but the last one. -/
def trail (m : Machine) : List StateId :=
  (m.runNoting (fun ids _ d => d.state :: ids) [m.state]).2.1

variable {m d : Machine} {c : Control} {s : Symbol} {x : Transition} {move : Move}

/-! ## Steps by entries -/

theorem read_of_transition? (hx : m.control.graph.transition? m.state s = some x) :
    ∃ move, m.read s = (.ok move, m.charge.follow x) := by
  obtain ⟨q, hq, hx⟩ := Option.bind_eq_some_iff.mp hx
  exact ⟨_, read_of_get?_eq_some hq hx⟩

/-- A read that succeeds has followed an entry. -/
theorem exists_transition_of_read (h : m.read s = (.ok move, d)) :
    ∃ x, m.control.graph.transition? m.state s = some x ∧ d = m.charge.follow x := by
  by_cases hm : m.state ∈ m.control.graph
  · rcases read_cases hm s with ⟨q, x, hq, hx, hread⟩ | ⟨q, -, -, hread⟩
    · rw [hread] at h
      cases h
      exact ⟨x, Option.bind_eq_some_iff.mpr ⟨q, hq, hx⟩, rfl⟩
    · rw [hread] at h
      cases h
  · have hentry : m.entry s = .error (.unknownState m.state) := by
      rw [entry, currentState, Graph.state, Graph.get?_eq_none_iff.mpr hm]
      rfl
    rw [read, hentry] at h
    cases h

theorem control_of_step {result : Except Fault Move} (h : m.step = (result, d)) :
    d.control = m.control := by
  rw [← control_read m m.tape.symbol]
  exact (congrArg (·.2.control) h).symm

/-! ## Over a larger graph -/

theorem status_under (h : m.control.Extends c) : (m.under c).status = m.status := by
  unfold status isAccepted isRejected under
  rw [h.accept, h.reject]

theorem outcome_under (h : m.control.Extends c) : (m.under c).outcome = m.outcome := by
  unfold outcome isAccepted under
  rw [h.accept, h.reject]

/-- A running machine is not in a halting state, so the entry it needs is also in the other graph.
-/
theorem step_under (h : m.control.Extends c) (hrun : m.status = .running)
    (hstep : m.step = (.ok move, d)) : ∃ move', (m.under c).step = (.ok move', d.under c) := by
  obtain ⟨haccept, hreject, -⟩ := status_eq_running_iff.mp hrun
  obtain ⟨x, hx, rfl⟩ := exists_transition_of_read hstep
  exact read_of_transition? (m := m.under c) (h.entries m.state _ x haccept hreject hx)

/-- Both machines take the same steps. -/
theorem advance_under (h : m.control.Extends c) (n : Nat)
    (hm : m.advance (fun _ _ _ => ()) n () = (.ok (), (), d)) :
    (m.under c).advance (fun _ _ _ => ()) n () = (.ok (), (), d.under c) := by
  -- The induction is on how many steps may be taken.
  induction n generalizing m with
  | zero =>
    cases hm
    rfl
  | succ n ih =>
    unfold advance at hm ⊢
    rw [status_under h]
    by_cases hrun : m.status = .running
    · rw [if_pos hrun] at hm ⊢
      cases hstep : m.step with
      | mk result e =>
        rw [hstep] at hm
        cases result with
        | ok move =>
          obtain ⟨move', hstep'⟩ := step_under h hrun hstep
          rw [hstep']
          exact ih (control_of_step hstep ▸ h) hm
        | error fault => cases hm
    · rw [if_neg hrun] at hm ⊢
      cases hm
      rfl

/-- A run that comes to an outcome comes to the same one over a larger graph, at the same machine.
-/
theorem run_under (h : m.control.Extends c) {o : Outcome} (hm : m.run = (.ok o, d)) :
    (m.under c).run = (.ok o, d.under c) := by
  have hbound : (m.under c).stepBound = m.stepBound := rfl
  have hlast : d.control = m.control := by rw [← control_run m, hm]
  unfold run runNoting at hm ⊢
  cases hadvance : m.advance (fun _ _ _ => ()) m.stepBound () with
  | mk result rest =>
    rw [hadvance] at hm
    cases result with
    | ok _ =>
      cases hm
      rw [hbound, advance_under h _ hadvance]
      exact congrArg (fun o => (Except.ok o, rest.2.under c)) (outcome_under (hlast ▸ h))
    | error fault => cases hm

/-! ## Where a run has been -/

/-- How a run that began with `m` has gone up to `d`, told by the states that it passed. -/
structure Passes (m : Machine) (ids : List StateId) (d : Machine) : Prop where
  control : d.control = m.control
  last : ids.head? = some d.state
  steps : ids.length + m.steps = d.steps + 1
  going : ∀ id ∈ ids.tail, id ≠ m.control.accept ∧ id ≠ m.control.reject
  linked : ids.IsChain fun b a => ∃ s x, m.control.graph.transition? a s = some x ∧ x.target = b

variable {ids : List StateId}

theorem passes_start (m : Machine) : m.Passes [m.state] m where
  control := rfl
  last := rfl
  steps := Nat.add_comm _ _
  going := nofun
  linked := .singleton _

/-- A step adds its target to the states passed, along an entry of the graph. -/
theorem Passes.step (h : m.Passes ids d) (hrun : d.status = .running) {d' : Machine}
    (hstep : d.step = (.ok move, d')) : m.Passes (d'.state :: ids) d' := by
  obtain ⟨haccept, hreject, -⟩ := status_eq_running_iff.mp hrun
  obtain ⟨x, hx, rfl⟩ := exists_transition_of_read hstep
  rw [h.control] at haccept hreject hx
  obtain ⟨ids, rfl⟩ := List.head?_eq_some_iff.mp h.last
  refine ⟨h.control, rfl, ?_, ?_, ?_⟩
  · have hsteps := h.steps
    show (ids.length + 1) + 1 + m.steps = d.steps + 1 + 1
    rw [List.length_cons] at hsteps
    omega
  · rintro id hid
    rcases List.mem_cons.mp hid with rfl | hid
    · exact ⟨haccept, hreject⟩
    · exact h.going id hid
  · exact .cons_cons ⟨_, x, hx, rfl⟩ h.linked

/-- A run passes from state to state along transitions of its graph, as many as it takes steps, and
none of them leaves the accept or the reject state. -/
theorem passes_trail (m : Machine) : m.Passes m.trail m.run.2 := by
  obtain ⟨-, hmachine⟩ := runNoting_eq_run (fun ids _ d => d.state :: ids) [m.state] m
  unfold trail
  cases hrun : m.runNoting (fun ids _ d => d.state :: ids) [m.state] with
  | mk result rest =>
    rw [hrun] at hmachine
    rw [← hmachine]
    obtain ⟨-, h, -⟩ | ⟨fault, d, -, h, -, hfail⟩ := runNoting_induction
      (P := fun ids d => m.Passes ids d) (fun _ _ _ _ h hrun hstep => h.step hrun hstep)
      (passes_start m) hrun
    · exact h
    · -- The step that fails leaves the machine where it was.
      rw [show rest.2 = d.charge from charge_of_read hfail]
      exact ⟨h.control, h.last, h.steps, h.going, h.linked⟩

/-! ## Machines over two graphs -/

section Graphs

variable {g g' : Graph} {start accept reject : StateId} {settings : Settings}
  {content₀ : Array Symbol} {m₀ : Machine}

/-- A machine that can be created over a graph can be over one with more states. -/
theorem create_over (hsize : g.size ≤ g'.size)
    (hcreate : create ⟨g, start, accept, reject⟩ settings content₀ = .ok m₀) :
    create ⟨g', start, accept, reject⟩ settings content₀ =
      .ok (fresh ⟨g', start, accept, reject⟩ settings content₀) := by
  obtain ⟨hcontrol, hsettings, hcontent, -⟩ := create_eq_ok_iff.mp hcreate
  obtain ⟨haccept, hreject, hstart⟩ := Control.check_eq_ok_iff.mp hcontrol
  have hroles : Control.check ⟨g', start, accept, reject⟩ = .ok () :=
    Control.check_eq_ok_iff.mpr ⟨Nat.lt_of_lt_of_le haccept hsize,
      Nat.lt_of_lt_of_le hreject hsize, Nat.lt_of_lt_of_le hstart hsize⟩
  exact create_eq_ok_iff.mpr ⟨hroles, hsettings, hcontent, rfl⟩

/-- Over a graph with at least the entries of another one for all states but the accept and the
reject state, each run on a new tape that ends is the same run, whatever else the graph has. No run,
whether it ends or fails, takes a transition out of these two states. -/
theorem run_of_extension (hsize : g.size ≤ g'.size)
    (hentries : ∀ id s x, id ≠ accept → id ≠ reject →
      g.transition? id s = some x → g'.transition? id s = some x)
    (hcreate : create ⟨g, start, accept, reject⟩ settings content₀ = .ok m₀) :
    (∃ m₁, create ⟨g', start, accept, reject⟩ settings content₀ = .ok m₁ ∧
      ∀ calls calls' content m, (m₀.after calls).reset content = .ok m →
        ∃ m', (m₁.after calls').reset content = .ok m' ∧
          ∀ o, m.run.1 = .ok o →
            m'.run.1 = .ok o ∧ m'.run.2.steps = m.run.2.steps ∧ m'.run.2.tape = m.run.2.tape ∧
              m'.run.2.state = m.run.2.state ∧ m'.run.2.remaining = m.run.2.remaining) ∧
    (∀ calls,
      let m := m₀.after calls
      m.trail.head? = some m.run.2.state ∧ m.trail.length + m.steps = m.run.2.steps + 1 ∧
        m.trail.IsChain (fun b a => ∃ s x, g.transition? a s = some x ∧ x.target = b) ∧
        ∀ id ∈ m.trail.tail, id ≠ accept ∧ id ≠ reject) := by
  refine ⟨⟨_, create_over hsize hcreate, fun calls calls' content m hreset => ?_⟩, fun calls => ?_⟩
  -- After the reset nothing is left of the calls, so two fresh machines are compared.
  · have hm := eq_fresh_of_reset hcreate calls hreset
    subst hm
    have hextends : Control.Extends ⟨g, start, accept, reject⟩ ⟨g', start, accept, reject⟩ :=
      ⟨rfl, rfl, hentries⟩
    refine ⟨fresh ⟨g', start, accept, reject⟩ settings content, ?_, fun o ho => ?_⟩
    · rw [reset_eq_ok_iff, control_after, settings_after]
      exact ⟨(reset_eq_ok_iff.mp hreset).1, rfl⟩
    · have hrun : (fresh ⟨g', start, accept, reject⟩ settings content).run = _ :=
        run_under (m := fresh ⟨g, start, accept, reject⟩ settings content) hextends
          (Prod.ext ho rfl)
      rw [hrun]
      exact ⟨rfl, rfl, rfl, rfl, rfl⟩
  -- Where the run has been is kept for any machine; here it is told of the graph.
  · have hpasses := passes_trail (m₀.after calls)
    have hcontrol : (m₀.after calls).control = ⟨g, start, accept, reject⟩ := by
      obtain ⟨-, -, -, rfl⟩ := create_eq_ok_iff.mp hcreate
      rw [control_after]
      rfl
    have hlinked := hpasses.linked
    have hgoing := hpasses.going
    rw [hcontrol] at hlinked hgoing
    exact ⟨hpasses.last, hpasses.steps, hlinked, hgoing⟩

/-- The graph of `Control.oneStep` with other names, one more state, one more entry for the start
state and one for the accept state. -/
def crowded : Graph := Graph.after ∅ [.addState "r", .addState "r", .addState "b",
  .connect ⟨0⟩ "z" ⟨2⟩ "z" .right, .connect ⟨1⟩ "_" ⟨0⟩ "z" .left, .connect ⟨0⟩ "x" ⟨1⟩ "y" .left]

theorem run_of_extension_crowded : ∃ m₁ m',
    create ⟨crowded, ⟨0⟩, ⟨1⟩, ⟨1⟩⟩ {} #["x"] = .ok m₁ ∧
      (m₁.after [.run, .read "_"]).reset #["x", "z"] = .ok m' ∧
      m'.run.1 = .ok .accepted ∧ m'.run.2.steps = 1 ∧ m'.run.2.state = ⟨1⟩ := by
  have hentries : ∀ id s x, id ≠ ⟨1⟩ → id ≠ ⟨1⟩ →
      Control.oneStep.graph.transition? id s = some x → crowded.transition? id s = some x := by
    rintro id s x - - hx
    -- Both graphs got the entry for `x` last, and the small one has no other.
    have hsmall := Graph.transition?_insert
      (show Graph.insert (Graph.after ∅ [.addState "q", .addState "a"]) ⟨0⟩ "x"
        ⟨⟨1⟩, "y", .left, by decide⟩ = .ok Control.oneStep.graph from rfl) id s
    have hlarge := Graph.transition?_insert
      (show Graph.insert (Graph.after ∅ [.addState "r", .addState "r", .addState "b",
          .connect ⟨0⟩ "z" ⟨2⟩ "z" .right, .connect ⟨1⟩ "_" ⟨0⟩ "z" .left]) ⟨0⟩ "x"
        ⟨⟨1⟩, "y", .left, by decide⟩ = .ok crowded from rfl) id s
    have hempty : (Graph.after ∅ [.addState "q", .addState "a"]).transition? id s = none := by
      show (((∅ : Graph).addState "q").2.addState "a").2.transition? id s = none
      rw [Graph.transition?_addState, Graph.transition?_addState]
      rfl
    rw [hsmall, hempty] at hx
    rw [hlarge]
    split at hx
    · rw [if_pos ‹_›]
      exact hx
    · cases hx
  have hcreate : create .oneStep {} #["x"] = .ok (fresh .oneStep {} #["x"]) :=
    create_eq_ok (by decide) (by decide) (by decide) (by decide) (by decide) (by decide)
  obtain ⟨⟨m₁, hcreate₁, hruns⟩, -⟩ := run_of_extension (by decide) hentries hcreate
  obtain ⟨m', hreset, hrun⟩ := hruns [] [.run, .read "_"] #["x", "z"] _
    (reset_eq_ok _ _ (by decide))
  obtain ⟨hanswer, hsteps, -, hstate, -⟩ := hrun .accepted (by decide +kernel)
  refine ⟨m₁, m', hcreate₁, hreset, hanswer, hsteps.trans ?_, hstate.trans ?_⟩
  · decide +kernel
  · decide +kernel

end Graphs

end Machine

end SingleTape
