import SingleTape.Batch
import SingleTape.Proofs.Library.Plan
import SingleTape.Proofs.Machine.Resetting

/-!
# Showing a run

To show a run its steps are taken one by one, with a line for each machine on the way, and then the
machine is run from where they have led. The lines are all that this adds: a run comes to the same
however many of its steps are taken before, and each machine on the way has a line.
-/

namespace SingleTape

open Batch (stateLine showUpTo showSteps runWord)
open Machine (Goes fresh resume symbolsOfWord)

/-- A program that there is: loaded from a text, built in, or one of these with other settings. -/
inductive Program.Available : Program → Prop
  | loaded {name text : String} {settings : Settings} {p : Program} {events : Array Event}
      (h : Program.load name text settings = .ok (p, events)) : p.Available
  | builtIn {p : Program} (h : p ∈ Library.programs) : p.Available
  | withSettings {p : Program} (h : p.Available) (settings : Settings) :
      Program.Available { p with settings }

/-- The line tells how many steps the machine has taken, the name of its state, where the head
stands, and the symbols of all cells with a blank between them. -/
def Batch.Tells (m : Machine) (line : String) : Prop :=
  ∃ q, m.control.graph.get? m.state = some q ∧
    line = String.join ["Step: ", toString m.steps, ", State: ", q.name, ", Head: ",
      toString m.tape.head, ", Tape: ", " ".intercalate m.tape.cells.toList]

/-- On the way from the first machine to the second these lines are printed: one for the first, and
one after each step. -/
inductive Batch.Prints (m : Machine) : Machine → List String → Prop
  | start {line : String} (h : Tells m line) : Prints m m [line]
  | step {d e : Machine} {lines : List String} {line : String} (h : Prints m d lines)
      (hgoes : Goes d e) (hline : Tells e line) : Prints m e (lines ++ [line])

/-- To what was shown before, the lines up to the machine have been added. It is in its graph. -/
def Batch.ShownUpTo (f : Machine) (before shown : Array String) (m : Machine) : Prop :=
  m.Grounded ∧ ∃ lines, Prints f m lines ∧ shown = before ++ lines.toArray

theorem Program.Available.closed {p : Program} (hp : p.Available) : p.control.graph.Closed := by
  induction hp with
  | loaded h =>
    obtain ⟨d, -, hp⟩ := Program.embodies_of_load h
    exact hp.closed
  | builtIn h =>
    obtain ⟨name, text, events, hload⟩ := Library.load_of_mem_programs h
    obtain ⟨d, -, hp⟩ := Program.embodies_of_load hload
    exact hp.closed
  | withSettings _ _ ih => exact ih

namespace Batch

variable {f m d : Machine} {lines : List String} {before shown shown' : Array String}
  {result : Except Fault Unit}

/-! ## Lines -/

/-- A machine is described exactly when its state belongs to its graph, by one line. -/
theorem stateLine_eq_ok_iff {line : String} : stateLine m = .ok line ↔ Tells m line := by
  have htext : ∀ q : State, "Step: " ++ toString m.steps ++ ", State: " ++ q.name ++ ", Head: "
      ++ toString m.tape.head ++ ", Tape: " ++ " ".intercalate m.tape.cells.toList =
      String.join ["Step: ", toString m.steps, ", State: ", q.name, ", Head: ",
        toString m.tape.head, ", Tape: ", " ".intercalate m.tape.cells.toList] := by
    intro q
    simp [String.join]
  constructor
  · intro h
    obtain ⟨q, hq, hline⟩ := bind_eq_ok_iff.mp h
    cases hline
    exact ⟨q, Graph.state_eq_ok_iff.mp hq, htext q⟩
  · rintro ⟨q, hq, rfl⟩
    rw [stateLine, Machine.currentState_of_get? hq, ← htext q]
    rfl

/-- A machine within its graph can be shown. -/
theorem exists_tells (hm : m.Grounded) : ∃ line, Tells m line := by
  obtain ⟨q, hq⟩ := Graph.exists_get?_of_mem hm.state
  exact ⟨_, q, hq, rfl⟩

/-- There is one line for the machine at the beginning and one for each step. -/
theorem Prints.length (h : Prints m d lines) : lines.length + m.steps = d.steps + 1 := by
  induction h with
  | start => exact Nat.add_comm _ _
  | step _ hgoes _ ih =>
    rw [List.length_append, List.length_singleton, hgoes.steps]
    omega

theorem shownUpTo_start (hf : f.Grounded) {line : String} (h : Tells f line) :
    ShownUpTo f before (before.push line) f :=
  ⟨hf, _, .start h, by simp⟩

theorem ShownUpTo.step (h : ShownUpTo f before shown m) (hgoes : Goes m d) {line : String}
    (hline : Tells d line) : ShownUpTo f before (shown.push line) d := by
  obtain ⟨hm, lines, hlines, rfl⟩ := h
  exact ⟨hgoes.grounded hm, _, hlines.step hgoes hline, by simp⟩

/-! ## Shown runs -/

/-- Within its graph a machine takes the steps that it takes when nobody looks, and all of them are
shown: the last line is for the machine that is left, or for the one whose next step fails. -/
theorem showUpTo_cases {n : Nat} (hm : ShownUpTo f before shown m)
    (h : showUpTo n shown m = (result, shown', d)) :
    m.advance (fun _ _ _ => ()) n () = (result, (), d) ∧
      ∃ e, ShownUpTo f before shown' e ∧ (e = d ∨ ∃ fault, e.step = (.error fault, d)) := by
  -- The induction is on the steps that may be shown; a machine in its graph can always be
  -- described.
  induction n generalizing m shown with
  | zero =>
    cases h
    exact ⟨rfl, _, hm, .inl rfl⟩
  | succ n ih =>
    unfold showUpTo at h
    unfold Machine.advance
    split at h
    case isTrue hrun =>
      rw [if_pos hrun]
      cases hstep : m.step with
      | mk answer e =>
        rw [hstep] at h
        cases answer with
        | error fault =>
          cases h
          exact ⟨rfl, m, hm, .inr ⟨fault, hstep⟩⟩
        | ok move =>
          have hgoes : Goes m e := ⟨hrun, move, hstep⟩
          obtain ⟨line, hline⟩ := exists_tells (hgoes.grounded hm.1)
          simp only [stateLine_eq_ok_iff.mpr hline] at h
          exact ih (hm.step hgoes hline) h
    case isFalse hstop =>
      rw [if_neg hstop]
      cases h
      exact ⟨rfl, _, hm, .inl rfl⟩

/-- Showing a run never fails, so it leaves of the run what is still to be done. -/
theorem showSteps_cases (hf : f.Grounded) (h : showSteps before f = (result, shown, d)) :
    f.run = d.resume result ∧ d = f.run.2 ∧
      ∃ e, ShownUpTo f before shown e ∧ { d with remaining := e.remaining } = e := by
  obtain ⟨line, hline⟩ := exists_tells hf
  rw [showSteps, stateLine_eq_ok_iff.mpr hline] at h
  obtain ⟨hadvance, e, he, hlast⟩ := showUpTo_cases (shownUpTo_start hf hline) h
  have hrun := Machine.run_of_advance hadvance
  refine ⟨hrun, ?_, e, he, ?_⟩
  · rw [hrun]
    cases result with
    | ok _ =>
      rw [resume, Machine.run_of_not_running (Machine.not_running_of_advance le_rfl hadvance)]
    | error fault => rfl
  · rcases hlast with rfl | ⟨fault, hfail⟩
    · rfl
    · rw [Machine.charge_of_read hfail]
      rfl

/-- No word is refused as a content. -/
theorem reset_symbolsOfWord (m : Machine) (word : String) :
    m.reset (symbolsOfWord word) = .ok (fresh m.control m.settings (symbolsOfWord word)) :=
  Machine.reset_eq_ok m _ fun _ => Machine.ne_empty_of_mem_symbolsOfWord

/-- The report of a word depends neither on what the machine did nor on whether the run is shown. -/
theorem runWord_eq {word : String} (hd : m.reset (symbolsOfWord word) = .ok d) (hg : d.Grounded)
    (visible : Bool) (shown : Array String) :
    runWord visible word shown m = (d.run.1.map fun outcome =>
        { word, accepted := outcome = .accepted, outcome, steps := d.run.2.steps },
      if visible then (showSteps shown d).2.1 else shown, d.run.2) := by
  unfold runWord
  rw [hd]
  dsimp only
  cases visible with
  | false => rfl
  | true =>
    rw [if_pos rfl, if_pos rfl]
    cases h : showSteps shown d with
    | mk result rest =>
      rw [(showSteps_cases hg h).1]
      cases result with
      | ok _ => rfl
      | error fault => rfl

end Batch

namespace Program

variable {p : Program} {m₀ : Machine}

/-- What is run on a word is a machine of the program, so it never leaves the graph. -/
theorem Available.grounded_fresh (hp : p.Available) (hm₀ : p.machine = .ok m₀)
    (content : Array Symbol) : (fresh p.control p.settings content).Grounded := by
  have hstart := (Control.check_eq_ok_iff.mp (Machine.create_eq_ok_iff.mp hm₀).1).2.2
  exact Machine.grounded_fresh hp.closed hstart p.settings content

/-- A machine made from an available program stays among the states of its graph. -/
theorem Available.grounded_after (hp : p.Available) (hm₀ : p.machine = .ok m₀)
    (calls : List Machine.Call) : (m₀.after calls).Grounded := by
  obtain ⟨-, -, -, rfl⟩ := Machine.create_eq_ok_iff.mp hm₀
  exact (hp.grounded_fresh hm₀ #[]).after calls

/-- Whatever was asked of a machine of a program before, it can be shown, and a word gives the same
report or fault and leaves the same machine whether its run is shown or not. To show the run is to
print a line for each machine on the way, one more than there are steps; of what the last one tells
the run leaves everything as it is. And whatever a machine, a run comes to the same after any number
of steps as at once. -/
theorem showing_only_prints (hp : p.Available) (hm₀ : p.machine = .ok m₀)
    (calls : List Machine.Call) (word : String) (shown : Array String) :
    (∃ line, stateLine (m₀.after calls) = .ok line ∧ Batch.Tells (m₀.after calls) line) ∧
    (∃ f d lines, (m₀.after calls).reset (symbolsOfWord word) = .ok f ∧
      Batch.Prints f d lines ∧ lines.length = f.run.2.steps + 1 ∧
      { f.run.2 with remaining := d.remaining } = d ∧
      runWord false word shown (m₀.after calls) =
        (f.run.1.map fun o => ⟨word, o = .accepted, o, f.run.2.steps⟩, shown, f.run.2) ∧
      runWord true word shown (m₀.after calls) =
        (f.run.1.map fun o => ⟨word, o = .accepted, o, f.run.2.steps⟩, shown ++ lines.toArray,
          f.run.2)) ∧
    ∀ (m : Machine) (n : Nat),
      let (result, _, d) := m.advance (fun _ _ _ => ()) n ()
      d.resume result = m.run := by
  refine ⟨?_, ?_, fun m n => (Machine.run_of_advance rfl).symm⟩
  · obtain ⟨line, hline⟩ := Batch.exists_tells (hp.grounded_after hm₀ calls)
    exact ⟨line, Batch.stateLine_eq_ok_iff.mpr hline, hline⟩
  · have hreset := Machine.reset_after hm₀ calls
      fun s (hs : s ∈ symbolsOfWord word) => Machine.ne_empty_of_mem_symbolsOfWord hs
    have hf := hp.grounded_fresh hm₀ (symbolsOfWord word)
    cases h : showSteps shown (fresh p.control p.settings (symbolsOfWord word)) with
    | mk result rest =>
      -- Showing takes all the steps there are, so that the run finds nothing left to do.
      obtain ⟨-, hleft, d, ⟨-, lines, hlines, hshown⟩, hlast⟩ := Batch.showSteps_cases hf h
      rw [hleft] at hlast
      refine ⟨_, d, lines, hreset, hlines, ?_, hlast, Batch.runWord_eq hreset hf false shown, ?_⟩
      · have hlength := hlines.length
        rw [← hlast] at hlength
        exact hlength
      · rw [Batch.runWord_eq hreset hf, if_pos rfl, h, hshown]

/-- The run fails at its second step, so there are two lines. -/
theorem showing_only_prints_of_twoLines : ∃ p m₀ f d, Program.Available p ∧
    p.machine = .ok m₀ ∧ (m₀.after [.read "x"]).reset #["x", "y"] = .ok f ∧
    Batch.Prints f d ["Step: 0, State: a, Head: 0, Tape: x y _",
      "Step: 1, State: a, Head: 1, Tape: y y _"] ∧
    runWord false "xy" #["z"] (m₀.after [.read "x"]) =
      (.error (.undefinedTransition "a" "y"), #["z"], f.run.2) ∧
    runWord true "xy" #["z"] (m₀.after [.read "x"]) =
      (.error (.undefinedTransition "a" "y"), #["z", "Step: 0, State: a, Head: 0, Tape: x y _",
        "Step: 1, State: a, Head: 1, Tape: y y _"], f.run.2) := by
  have hrun : (do
      let r ← (load "marks" twoLines {}).toOption
      let m₀ ← r.1.machine.toOption
      let f ← ((m₀.after [.read "x"]).reset (symbolsOfWord "xy")).toOption
      some (f.run.1, (runWord true "xy" #["z"] (m₀.after [.read "x"])).2.1)) =
      some (.error (.undefinedTransition "a" "y"), #["z"] ++
        #["Step: 0, State: a, Head: 0, Tape: x y _",
          "Step: 1, State: a, Head: 1, Tape: y y _"]) := by
    decide +kernel
  cases hload : load "marks" twoLines {} with
  | error e =>
    rw [hload] at hrun
    cases hrun
  | ok r =>
    have hp : r.1.Available := .loaded hload
    cases hm₀ : r.1.machine with
    | error fault =>
      rw [hload] at hrun
      simp [Except.toOption, hm₀] at hrun
    | ok m₀ =>
      obtain ⟨-, ⟨f, d, lines, hreset, hprints, -, -, hplain, hshown⟩, -⟩ :=
        showing_only_prints hp hm₀ [.read "x"] "xy" #["z"]
      obtain ⟨hresult, hlines⟩ : f.run.1 = .error (.undefinedTransition "a" "y") ∧
          (runWord true "xy" #["z"] (m₀.after [.read "x"])).2.1 = #["z"] ++
            #["Step: 0, State: a, Head: 0, Tape: x y _",
              "Step: 1, State: a, Head: 1, Tape: y y _"] := by
        simpa [hload, Except.toOption, hm₀, hreset] using hrun
      rw [hshown] at hlines
      have hlines : lines.toArray = _ := Array.append_right_inj _ |>.mp hlines
      rw [hresult] at hplain hshown
      rw [hlines] at hshown
      rw [show lines = _ from congrArg Array.toList hlines] at hprints
      exact ⟨r.1, m₀, f, d, hp, hm₀, hreset, hprints, hplain, hshown⟩

end Program

end SingleTape
