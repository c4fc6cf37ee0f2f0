import SingleTape.Program.Load
import SingleTape.Proofs.Machine.Creation
import SingleTape.Proofs.Machine.Stepping
import SingleTape.Proofs.Program.Compiling

/-!
# Compilation preserves meaning

The machine of a program and the description that the program was compiled from, run side by side:
handles and tables on the one hand, names and lines on the other. Neither ever gets ahead.
-/

namespace SingleTape

open Description (lastLine)

/-- The machine is in the state with that name, and tape and counters are the same. -/
structure Machine.Shows (m : Machine) (x : Situation) : Prop where
  state : m.currentState.map (·.name) = .ok x.state
  tape : m.tape = x.tape
  remaining : m.remaining = x.remaining
  steps : m.steps = x.steps

/-- After some steps: the same result, the same moves observed, and the same situation. -/
structure Agree {α σ : Type} (r : Except Fault α × σ × Machine)
    (r' : Except Fault α × σ × Situation) : Prop where
  result : r.1 = r'.1
  moves : r.2.1 = r'.2.1
  shows : r.2.2.Shows r'.2.2

namespace Machine

variable {m : Machine} {x : Situation} {d : Description}

theorem currentState_map_name_iff {q : String} :
    m.currentState.map (·.name) = .ok q ↔
      ∃ a, m.control.graph.get? m.state = some a ∧ a.name = q := by
  unfold currentState Graph.state
  cases m.control.graph.get? m.state with
  | none => simp [Except.map]
  | some a => simp [Except.map]

/-- All that a step of a machine that goes by lines can do: what a line for its state and the symbol
says, or fail because there is no such line. -/
theorem read_line_cases (hm : Means d m.control) {q : String}
    (hq : d.stateNames[m.state.index]? = some q) (s : Symbol) :
    (∃ t ∈ d.transitions, t.state = q ∧ t.read = s ∧ ∃ move m', m.read s = (.ok move, m') ∧
      m'.tape = m.tape.write t.write t.direction m.settings.blank ∧
      d.stateNames[m'.state.index]? = some t.next) ∨
    ((∀ t ∈ d.transitions, ¬ (t.state = q ∧ t.read = s)) ∧
      m.read s = (.error (.undefinedTransition q s), m.charge)) := by
  rw [← hm.graph.name] at hq
  obtain ⟨a, ha, rfl⟩ := Option.map_eq_some_iff.mp hq
  rw [hm.graph.name] at hq
  have htable : m.control.graph.transition? m.state s = a.table.get? s := by
    rw [Graph.transition?, ha]
    rfl
  -- An entry comes from a line, and without an entry there is no line.
  cases hx : a.table.get? s with
  | some x =>
    obtain ⟨t, ht, hstate, hread, hwrite, hdir, htarget⟩ :=
      hm.graph.exists_line hq (htable.trans hx)
    refine .inl ⟨t, ht, hstate, hread, _, _, read_of_get?_eq_some ha hx, ?_, htarget⟩
    rw [← hwrite, ← hdir]
    rfl
  | none =>
    exact .inr ⟨hm.graph.not_line hq (htable.trans hx), read_of_get?_eq_none ha hx⟩

/-- The state of the machine is at the place of the state shown. -/
theorem Shows.getElem? (h : m.Shows x) (hm : Means d m.control) :
    d.stateNames[m.state.index]? = some x.state := by
  obtain ⟨a, ha, hname⟩ := currentState_map_name_iff.mp h.state
  rw [← hm.graph.name, ha, Option.map_some, hname]

/-- Machine and lines go on together. -/
theorem Shows.status (h : m.Shows x) (hm : Means d m.control) : m.status = x.status d := by
  have haccept := hm.accept (h.getElem? hm)
  have hreject := hm.reject (h.getElem? hm)
  simp only [Machine.status, isAccepted, isRejected, Situation.status, h.remaining, haccept,
    hreject, decide_eq_true_eq, Bool.or_eq_true]

theorem Shows.outcome (h : m.Shows x) (hm : Means d m.control) : m.outcome = x.outcome d := by
  have haccept := hm.accept (h.getElem? hm)
  have hreject := hm.reject (h.getElem? hm)
  simp only [Machine.outcome, isAccepted, Situation.outcome, haccept, hreject, decide_eq_true_eq]

/-- What is stored for the state and the symbol under the head is what the last line says. -/
theorem Shows.step (h : m.Shows x) (hm : Means d m.control) :
    m.step.1 = (x.step d m.settings).1 ∧ m.step.2.Shows (x.step d m.settings).2 := by
  obtain ⟨a, ha, hname⟩ := currentState_map_name_iff.mp h.state
  have hid := h.getElem? hm
  have hsymbol : m.tape.symbol = x.tape.symbol := by rw [h.tape]
  have htable : m.control.graph.transition? m.state x.tape.symbol = a.table.get? x.tape.symbol := by
    rw [Graph.transition?, ha]
    rfl
  rw [Machine.step, hsymbol, Situation.step]
  -- There is a last line just if there is an entry, and both say the same.
  cases hline : lastLine d.transitions x.state x.tape.symbol with
  | none =>
    have hnone := hm.graph.noLine hid hline
    rw [htable] at hnone
    rw [read_of_get?_eq_none ha hnone, hname]
    exact ⟨rfl, h.state, h.tape, by rw [remaining_charge, h.remaining], h.steps⟩
  | some t =>
    obtain ⟨y, hy, hwrite, hdir, htarget⟩ := hm.graph.line hid hline
    rw [htable] at hy
    rw [read_of_get?_eq_some ha hy]
    refine ⟨?_, ?_, ?_, ?_, ?_⟩
    · rw [moveAlong, hname, h.tape, hwrite, hdir]
    · rw [← hm.graph.name] at htarget
      exact currentState_map_name_iff.mpr (Option.map_eq_some_iff.mp htarget)
    · show m.tape.write y.write y.direction m.settings.blank = _
      rw [h.tape, hwrite, hdir]
    · show m.remaining - 1 = x.remaining - 1
      rw [h.remaining]
    · show m.steps + 1 = x.steps + 1
      rw [h.steps]

/-- A machine and its situation take their steps in lockstep, as long as both are running. -/
theorem Shows.advance {σ : Type} (note : σ → Move → σ) (n : Nat) (acc : σ) (h : m.Shows x)
    (hm : Means d m.control) :
    Agree (m.advance (fun acc move _ => note acc move) n acc) (x.advance d m.settings note n acc) ∧
      (m.advance (fun acc move _ => note acc move) n acc).2.2.control = m.control := by
  -- The induction is on how many steps may be taken.
  induction n generalizing m x acc with
  | zero => exact ⟨⟨rfl, rfl, h⟩, rfl⟩
  | succ n ih =>
    unfold Machine.advance Situation.advance
    rw [h.status hm]
    by_cases hrun : x.status d = .running
    · rw [if_pos hrun, if_pos hrun]
      obtain ⟨hresult, hshows⟩ := h.step hm
      have hcontrol : m.step.2.control = m.control := control_read m _
      have hsettings : m.step.2.settings = m.settings := settings_read m _
      cases hs : m.step with
      | mk result m' =>
        cases hx : x.step d m.settings with
        | mk result' x' =>
          rw [hs, hx] at hresult hshows
          rw [hs] at hcontrol hsettings
          obtain rfl : result = result' := hresult
          cases result with
          | ok move =>
            have hnext := ih (note acc move) hshows (by rw [hcontrol]; exact hm)
            rw [hsettings, hcontrol] at hnext
            exact hnext
          | error fault => exact ⟨⟨rfl, rfl, hshows⟩, hcontrol⟩
    · rw [if_neg hrun, if_neg hrun]
      exact ⟨⟨rfl, rfl, h⟩, rfl⟩

/-- A run shows what the lines lead to, to its end. -/
theorem Shows.run (h : m.Shows x) (hm : Means d m.control) :
    m.run.1 = (x.run d m.settings).1 ∧ m.run.2.Shows (x.run d m.settings).2 := by
  obtain ⟨hagree, hcontrol⟩ := h.advance (fun _ _ => ()) (x.remaining + 1).toNat () hm
  -- Both runs are advances by the same number of steps.
  unfold Machine.run Machine.runNoting Situation.run Machine.stepBound
  rw [h.remaining]
  obtain ⟨hresult, -, hshows⟩ := hagree
  cases ha : m.advance (fun _ _ _ => ()) (x.remaining + 1).toNat () with
  | mk result rest =>
    cases hb : x.advance d m.settings (fun _ _ => ()) (x.remaining + 1).toNat () with
    | mk result' rest' =>
      rw [ha, hb] at hresult hshows
      rw [ha] at hcontrol
      obtain rfl : result = result' := hresult
      refine ⟨?_, ?_⟩
      · cases result with
        | ok u =>
          show Except.ok rest.2.outcome = Except.ok (rest'.2.outcome d)
          rw [hshows.outcome (by rw [hcontrol]; exact hm)]
        | error fault => rfl
      · cases result with
        | ok u => exact hshows
        | error fault => exact hshows

theorem shows_fresh {c : Control} {settings : Settings} {content : Array Symbol}
    (hc : Means d c) : (fresh c settings content).Shows (.initial d settings content) where
  state := by
    have hstart := hc.start
    rw [← hc.graph.name] at hstart
    exact currentState_map_name_iff.mpr (Option.map_eq_some_iff.mp hstart)
  tape := rfl
  remaining := rfl
  steps := rfl

end Machine

namespace Program

variable {name text : String} {settings : Settings} {p : Program} {events : Array Event}

/-- What is read has been parsed and has passed the check. -/
theorem readDescription_eq_ok {blank : Symbol} {d : Description}
    (h : readDescription text blank = .ok d) :
    Description.parse text = .ok d ∧ d.Checked blank := by
  unfold readDescription at h
  dsimp only at h
  split at h
  case isTrue => cases h
  case isFalse =>
    simp only [bind_eq_ok_iff, mapError_eq_ok_iff] at h
    obtain ⟨d', hparse, _, hcheck, heq⟩ := h
    cases heq
    exact ⟨hparse, Description.check_eq_ok_iff.mp hcheck⟩

/-- What is loaded has the meaning of its lines. -/
theorem means_of_load (h : load name text settings = .ok (p, events)) : ∃ d : Description,
    Description.parse text = .ok d ∧ Means d p.control ∧ p.settings = settings := by
  unfold load at h
  simp only [bind_eq_ok_iff] at h
  obtain ⟨d, hread, ⟨p', events'⟩, hcompile, heq⟩ := h
  cases heq
  obtain ⟨hparse, hchecked⟩ := readDescription_eq_ok hread
  exact ⟨d, hparse, means_of_compile hchecked hcompile⟩

/-- The machine of a program takes the same steps as the description read by names: after each step
and at the end there are the same result, tape, counters and name of the state. -/
theorem machine_agrees_with_lines {content : Array Symbol}
    (hload : load name text settings = .ok (p, events)) (hblank : settings.blank ≠ "")
    (hbudget : settings.budget ≤ 2 ^ 63 - 1) (hcontent : ∀ s ∈ content, s ≠ "") :
    ∃ d m₀ m, Description.parse text = .ok d ∧ p.machine = .ok m₀ ∧ m₀.reset content = .ok m ∧
      (∀ n, Agree (m.advance (fun moves move _ => moves.push move) n #[])
        ((Situation.initial d settings content).advance d settings Array.push n #[])) ∧
      m.run.1 = ((Situation.initial d settings content).run d settings).1 ∧
      m.run.2.Shows ((Situation.initial d settings content).run d settings).2 := by
  obtain ⟨d, hparse, hmeans, hsettings⟩ := means_of_load hload
  obtain ⟨hstart, haccept, hreject⟩ := hmeans.roles
  have hmachine : p.machine = .ok (Machine.fresh p.control settings #[]) := by
    rw [machine, hsettings]
    exact Machine.create_eq_ok haccept hreject hstart hblank hbudget (by simp)
  have hshows : (Machine.fresh p.control settings content).Shows (.initial d settings content) :=
    Machine.shows_fresh hmeans
  refine ⟨d, _, _, hparse, hmachine, Machine.reset_eq_ok _ content hcontent, ?_, ?_⟩
  · intro n
    exact (hshows.advance Array.push n #[] hmeans).1
  · exact hshows.run hmeans

/-- The first line for `a` and `x` would lead to rejection. -/
def twoLines : String :=
  "states 3\na\nb +\nc -\nalphabet 2 x y\na x c x L\na x a y R\na _ b _ R\n"

theorem machine_agrees_with_lines_of_twoLines : ∃ p events d m₀ m,
    load "marks" twoLines {} = .ok (p, events) ∧ Description.parse twoLines = .ok d ∧
      p.machine = .ok m₀ ∧ m₀.reset #["x", "x"] = .ok m ∧
      m.run.1 = ((Situation.initial d {} #["x", "x"]).run d {}).1 ∧ m.run.1 = .ok .accepted := by
  have hrun : (do
      let r ← (load "marks" twoLines {}).toOption
      let m₀ ← r.1.machine.toOption
      let m ← (m₀.reset #["x", "x"]).toOption
      m.run.1.toOption) = some .accepted := by decide +kernel
  cases hload : load "marks" twoLines {} with
  | error e =>
    rw [hload] at hrun
    cases hrun
  | ok r =>
    obtain ⟨p, events⟩ := r
    obtain ⟨d, m₀, m, hparse, hm₀, hm, -, hsame, -⟩ := machine_agrees_with_lines hload (by decide)
      (by decide) (show ∀ s ∈ #["x", "x"], s ≠ "" by decide)
    refine ⟨p, events, d, m₀, m, rfl, hparse, hm₀, hm, hsame, ?_⟩
    have hrun : m.run.1.toOption = some .accepted := by
      simpa [hload, Except.toOption, hm₀, hm] using hrun
    cases hr : m.run.1 with
    | error e =>
      rw [hr] at hrun
      cases hrun
    | ok o =>
      rw [hr] at hrun
      cases hrun
      rfl

end Program

end SingleTape
