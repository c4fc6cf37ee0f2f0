import SingleTape.Proofs.Batch.Lines
import SingleTape.Proofs.Batch.Report
import SingleTape.Proofs.Batch.Showing

/-!
# Batches report each word as if it were alone

One machine goes through all words of a batch. Because a new content makes it forget what it did,
the report of a word is the one that a machine built for this word gives, and where a batch is cut
in two at the end of a line, the parts have the reports of the whole.
-/

namespace SingleTape

open Batch (Spells bytesOf pieces lineFeed)

namespace Program

/-- The report of a machine that is built for one word. -/
def reportOf (p : Program) (word : String) : Except Fault Report := do
  let m ← Machine.create p.control p.settings (Machine.symbolsOfWord word)
  let outcome ← m.run.1
  return { word, accepted := outcome = .accepted, outcome, steps := m.run.2.steps }

/-- The line holds the word that is reported of, and the report is right. -/
def Reports (p : Program) (line : List UInt8) (r : Report) : Prop :=
  Spells line r.word ∧ p.reportOf r.word = .ok r

/-- Why a line has no report: it is no text, or the run on its word fails. -/
inductive Refuses (p : Program) (line : List UInt8) : BatchProblem → Prop
  | noText (h : ∀ text, bytesOf text ≠ line) : p.Refuses line (.file .invalidText)
  | fails {word : String} {fault : Fault} (hword : Spells line word)
      (hfault : p.reportOf word = .error fault) : p.Refuses line (.fault fault)

/-- The reports of lines up to the first one that has none, and why it has none. -/
inductive Batches (p : Program) : List (List UInt8) → List Report → Option BatchProblem → Prop
  | done : p.Batches [] [] none
  | refuse {line : List UInt8} {lines : List (List UInt8)} {problem : BatchProblem}
      (h : p.Refuses line problem) : p.Batches (line :: lines) [] (some problem)
  | report {line : List UInt8} {lines : List (List UInt8)} {r : Report} {reports : List Report}
      {problem : Option BatchProblem} (h : p.Reports line r)
      (hlines : p.Batches lines reports problem) : p.Batches (line :: lines) (r :: reports) problem

/-- A batch over these lines ends after `n` of them for the cause given: there are no more, or the
next one has no report. -/
def EndsAfter (p : Program) (lines : List (List UInt8)) (n : Nat) : Option BatchProblem → Prop
  | none => n = lines.length
  | some problem => ∃ line, lines[n]? = some line ∧ p.Refuses line problem

variable {p : Program} {line : List UInt8} {lines more : List (List UInt8)} {r r' : Report}
  {reports reports' : List Report} {problem problem' : Option BatchProblem}

/-! ## Lines have one report or one problem -/

theorem Reports.unique (h : p.Reports line r) (h' : p.Reports line r') : r = r' := by
  have hword := h.1.unique h'.1
  have hr := h.2
  rw [hword, h'.2] at hr
  exact (Except.ok.inj hr).symm

/-- A line that is reported on is not refused. -/
theorem Reports.not_refuses (h : p.Reports line r) (problem : BatchProblem) :
    ¬ p.Refuses line problem := by
  intro hproblem
  cases hproblem with
  | noText hno =>
    obtain ⟨text, htext, -⟩ := h.1
    exact hno text htext
  | fails hword hfault =>
    rw [hword.unique h.1, h.2] at hfault
    cases hfault

theorem Refuses.unique {problem problem' : BatchProblem} (h : p.Refuses line problem)
    (h' : p.Refuses line problem') : problem = problem' := by
  cases h with
  | noText hno =>
    cases h' with
    | noText => rfl
    | fails hword' =>
      obtain ⟨text, htext, -⟩ := hword'
      exact absurd htext (hno text)
  | fails hword hfault =>
    cases h' with
    | noText hno =>
      obtain ⟨text, htext, -⟩ := hword
      exact absurd htext (hno text)
    | fails hword' hfault' =>
      rw [hword.unique hword', hfault'] at hfault
      cases hfault
      rfl

theorem Batches.unique (h : p.Batches lines reports problem)
    (h' : p.Batches lines reports' problem') : reports = reports' ∧ problem = problem' := by
  induction h generalizing reports' problem' with
  | done =>
    cases h'
    exact ⟨rfl, rfl⟩
  | refuse h =>
    cases h' with
    | refuse h' => exact ⟨rfl, congrArg some (h.unique h')⟩
    | report h' => exact absurd h (h'.not_refuses _)
  | report h _ ih =>
    cases h' with
    | refuse h' => exact absurd h' (h.not_refuses _)
    | report h' hlines' =>
      obtain ⟨rfl, rfl⟩ := ih hlines'
      exact ⟨congrArg (· :: _) (h.unique h'), rfl⟩

theorem Batches.append (h : p.Batches lines reports none) (h' : p.Batches more reports' problem) :
    p.Batches (lines ++ more) (reports ++ reports') problem := by
  generalize hnone : none = problem₀ at h
  induction h with
  | done => exact h'
  | refuse => cases hnone
  | report h _ ih => exact .report h (ih hnone)

/-- The reports are those of the first lines, one for each. -/
theorem Batches.forall₂ (h : p.Batches lines reports problem) :
    List.Forall₂ p.Reports (lines.take reports.length) reports := by
  induction h with
  | done => exact .nil
  | refuse => exact .nil
  | report h _ ih => exact .cons h ih

/-- Every report is that of a line. -/
theorem Batches.exists_reports (h : p.Batches lines reports problem) (hr : r ∈ reports) :
    ∃ line ∈ lines, p.Reports line r := by
  induction h with
  | done => cases hr
  | refuse => cases hr
  | report h _ ih =>
    rcases List.mem_cons.mp hr with rfl | hr
    · exact ⟨_, List.mem_cons_self, h⟩
    · obtain ⟨line, hline, hreports⟩ := ih hr
      exact ⟨line, List.mem_cons_of_mem _ hline, hreports⟩

/-- A problem is the one of the line behind those reported on. -/
theorem Batches.endsAfter (h : p.Batches lines reports problem) :
    p.EndsAfter lines reports.length problem := by
  induction h with
  | done => rfl
  | refuse h => exact ⟨_, rfl, h⟩
  | @report _ _ _ _ problem _ _ ih =>
    cases problem with
    | none => exact congrArg (· + 1) ih
    | some problem => exact ih

/-- There is no problem exactly when no line is refused. -/
theorem Batches.eq_none_iff (h : p.Batches lines reports problem) :
    problem = none ↔ ∀ line ∈ lines, ∀ problem, ¬ p.Refuses line problem := by
  induction h with
  | done => simp
  | refuse h => exact iff_of_false nofun fun hall => hall _ List.mem_cons_self _ h
  | report h _ ih =>
    rw [ih, List.forall_mem_cons, and_iff_right (h.not_refuses)]

/-- A report takes one line, since the word it names is a piece of one. -/
theorem Reports.oneLine (h : p.Reports line r) (hline : lineFeed ∉ line) (json : Bool) :
    Json.OneLine (r.line json) := by
  have hword : Json.OneLine r.word := h.1.notMem hline
  exact Report.oneLine_line hword json

/-- All reports take one line each. -/
theorem Batches.oneLine (h : p.Batches lines reports problem)
    (hlines : ∀ line ∈ lines, lineFeed ∉ line) (json : Bool) :
    ∀ r ∈ reports, Json.OneLine (r.line json) := by
  intro r hr
  obtain ⟨line, hline, hreports⟩ := h.exists_reports hr
  exact hreports.oneLine (hlines line hline) json

end Program

/-! ## A machine that is used again -/

def Batch.onBytes (visible json : Bool) (bytes : List UInt8) (m : Machine) : Batch.Result :=
  (Batch.runLines visible json (Batch.lines bytes) {} m).1

namespace Program

variable {p : Program} {m₀ m : Machine}

/-- A report names the word it is on. -/
theorem word_of_reportOf {word : String} {r : Report} (h : p.reportOf word = .ok r) :
    r.word = word := by
  obtain ⟨m, -, h⟩ := bind_eq_ok_iff.mp h
  obtain ⟨outcome, -, h⟩ := bind_eq_ok_iff.mp h
  cases h
  rfl

/-- A machine that is built for a word starts afresh on it. -/
theorem reportOf_eq (hm₀ : p.machine = .ok m₀) (word : String) :
    let d := Machine.fresh p.control p.settings (Machine.symbolsOfWord word)
    p.reportOf word = d.run.1.map fun outcome =>
      { word, accepted := outcome = .accepted, outcome, steps := d.run.2.steps } := by
  intro d
  have hcreate : Machine.create p.control p.settings (Machine.symbolsOfWord word) = .ok d :=
    Machine.create_of_create hm₀ fun _ => Machine.ne_empty_of_mem_symbolsOfWord
  unfold reportOf
  rw [hcreate]
  show (d.run.1 >>= fun outcome => _) = _
  cases d.run.1 with
  | ok outcome => rfl
  | error fault => rfl

section Used

variable (hp : p.Available) (hm₀ : p.machine = .ok m₀)

include hp hm₀

/-- The steps of a run are bounded by the budget, which is a signed machine word. -/
theorem steps_lt_of_reportOf {word : String} {r : Report} (h : p.reportOf word = .ok r) :
    r.steps < Text.wordLimit := by
  obtain ⟨hcontrol, hsettings, -, -⟩ := Machine.create_eq_ok_iff.mp hm₀
  have hstart := (Control.check_eq_ok_iff.mp hcontrol).2.2
  have hle := Machine.steps_run_fresh_le p.settings (Machine.symbolsOfWord word) hp.closed hstart
  have hbudget := (Settings.check_eq_ok_iff.mp hsettings).2
  rw [reportOf_eq hm₀] at h
  cases hrun : (Machine.fresh p.control p.settings (Machine.symbolsOfWord word)).run.1 with
  | error fault =>
    rw [hrun] at h
    cases h
  | ok outcome =>
    rw [hrun] at h
    cases h
    have hlimits : Settings.budgetLimit + 1 ≤ Text.wordLimit := by decide
    dsimp only
    omega

/-- A machine with the control and the settings of the program reports of a word what one that is
built for it does, and keeps both. -/
theorem runWord_of_program (hcontrol : m.control = p.control) (hsettings : m.settings = p.settings)
    (visible : Bool) (word : String) (shown : Array String) :
    (Batch.runWord visible word shown m).1 = p.reportOf word ∧
      (Batch.runWord visible word shown m).2.2.control = p.control ∧
      (Batch.runWord visible word shown m).2.2.settings = p.settings := by
  have hreset := Batch.reset_symbolsOfWord m word
  rw [hcontrol, hsettings] at hreset
  rw [Batch.runWord_eq hreset (hp.grounded_fresh hm₀ _), reportOf_eq hm₀]
  exact ⟨rfl, Machine.control_run _, Machine.settings_run _⟩

/-- A machine of the program reports the lines as machines built for their words do. -/
theorem batches_runLines (visible json : Bool) (lines : List (List UInt8)) (result : Batch.Result)
    (hnone : result.problem = none) (hcontrol : m.control = p.control)
    (hsettings : m.settings = p.settings) :
    ∃ reports, p.Batches lines reports (Batch.runLines visible json lines result m).1.problem ∧
      (Batch.runLines visible json lines result m).1.written.toList =
        result.written.toList ++ reports.map (·.line json) := by
  -- The induction is on the lines. The machine changes from line to line, but neither its control
  -- nor its settings do.
  induction lines generalizing result m with
  | nil =>
    rw [Batch.runLines, hnone]
    exact ⟨[], .done, (List.append_nil _).symm⟩
  | cons line lines ih =>
    unfold Batch.runLines
    cases hword : Batch.wordOfLine? line with
    | none =>
      exact ⟨[], .refuse (.noText (Batch.wordOfLine?_eq_none_iff.mp hword)),
        (List.append_nil _).symm⟩
    | some word =>
      have hspells := Batch.wordOfLine?_eq_some_iff.mp hword
      obtain ⟨hreport, hcontrol', hsettings'⟩ :=
        runWord_of_program hp hm₀ hcontrol hsettings visible word result.shown
      dsimp only
      cases hrun : Batch.runWord visible word result.shown m with
      | mk answer rest =>
        rw [hrun] at hreport hcontrol' hsettings'
        cases answer with
        | error fault =>
          exact ⟨[], .refuse (.fails hspells hreport.symm), (List.append_nil _).symm⟩
        | ok report =>
          obtain ⟨reports, hreports, hwritten⟩ := ih
            { result with written := result.written.push (report.line json), shown := rest.1 }
            hnone hcontrol' hsettings'
          have hname : report.word = word := word_of_reportOf hreport.symm
          refine ⟨report :: reports, .report ⟨?_, ?_⟩ hreports, ?_⟩
          · rwa [hname]
          · rw [hname]
            exact hreport.symm
          · rw [hwritten, Array.toList_push, List.append_assoc]
            rfl

/-- Whatever was asked of the machine, it still has the control and the settings of the program. -/
theorem batches_onBytes (calls : List Machine.Call) (visible json : Bool) (bytes : List UInt8) :
    ∃ reports,
      p.Batches (pieces bytes) reports
        (Batch.onBytes visible json bytes (m₀.after calls)).problem ∧
      (Batch.onBytes visible json bytes (m₀.after calls)).written.toList =
        reports.map (·.line json) := by
  obtain ⟨-, -, -, hm⟩ := Machine.create_eq_ok_iff.mp hm₀
  rw [← Batch.lines_eq_pieces]
  refine batches_runLines hp hm₀ visible json (Batch.lines bytes) {} rfl ?_ ?_
  · rw [Machine.control_after, hm]
    rfl
  · rw [Machine.settings_after, hm]
    rfl

/-- Every line written for a report shows all that the report has to tell. -/
theorem Batches.shows {lines : List (List UInt8)} {reports : List Report}
    {problem : Option BatchProblem} (h : p.Batches lines reports problem) (json : Bool) :
    List.Forall₂ (fun r => Report.Shows r json) reports (reports.map (·.line json)) := by
  rw [List.forall₂_map_right_iff, List.forall₂_same]
  intro r hr
  obtain ⟨line, -, -, hreport⟩ := h.exists_reports hr
  exact Report.shows_line (steps_lt_of_reportOf hp hm₀ hreport) json

/-- A batch over any bytes, with a machine of the program that may have done anything before and
whether it is shown or not, reports the lines one by one as machines built for their words do, up to
the first line that is no text or whose word makes the run fail. Each report stands on a line of its
own, all of it in JSON, and the word and the verdict in plain text. Cutting the bytes at the end of
a line cuts the reports. -/
theorem batch_reports_each_line (visible json : Bool) :
    (∀ calls bytes,
      let result := Batch.onBytes visible json bytes (m₀.after calls)
      (∃ reports : List Report,
        List.Forall₂ (fun r => Report.Shows r json) reports result.written.toList ∧
        List.Forall₂ p.Reports ((pieces bytes).take reports.length) reports ∧
        p.EndsAfter (pieces bytes) reports.length result.problem) ∧
      (result.problem = none ↔ ∀ line ∈ pieces bytes, ∀ problem, ¬ p.Refuses line problem) ∧
      ∀ text ∈ result.written, '\n' ∉ text.toList) ∧
    ∀ calls calls₁ calls₂ u v, u.getLast? = some lineFeed →
      (Batch.onBytes visible json u (m₀.after calls₁)).problem = none →
      (Batch.onBytes visible json (u ++ v) (m₀.after calls)).problem =
        (Batch.onBytes visible json v (m₀.after calls₂)).problem ∧
      (Batch.onBytes visible json (u ++ v) (m₀.after calls)).written =
        (Batch.onBytes visible json u (m₀.after calls₁)).written ++
          (Batch.onBytes visible json v (m₀.after calls₂)).written := by
  constructor
  · intro calls bytes
    obtain ⟨reports, hreports, hwritten⟩ := batches_onBytes hp hm₀ calls visible json bytes
    -- All parts are read off the relation between lines and reports.
    refine ⟨⟨reports, ?_, hreports.forall₂, hreports.endsAfter⟩, hreports.eq_none_iff,
      fun text htext => ?_⟩
    · rw [hwritten]
      exact hreports.shows hp hm₀ json
    · rw [← Array.mem_toList_iff, hwritten] at htext
      obtain ⟨r, hr, rfl⟩ := List.mem_map.mp htext
      exact hreports.oneLine (fun line => Batch.lineFeed_notMem_of_mem_pieces) json r hr
  · intro calls calls₁ calls₂ u v hu hnone
    obtain ⟨reports₁, hreports₁, hwritten₁⟩ := batches_onBytes hp hm₀ calls₁ visible json u
    obtain ⟨reports₂, hreports₂, hwritten₂⟩ := batches_onBytes hp hm₀ calls₂ visible json v
    obtain ⟨reports, hreports, hwritten⟩ := batches_onBytes hp hm₀ calls visible json (u ++ v)
    rw [Batch.pieces_append hu] at hreports
    rw [hnone] at hreports₁
    obtain ⟨rfl, hproblem⟩ := hreports.unique (hreports₁.append hreports₂)
    refine ⟨hproblem, ?_⟩
    apply Array.toList_inj.mp
    rw [Array.toList_append, hwritten, hwritten₁, hwritten₂, List.map_append]

end Used

/-- The lines are `x` with two carriage returns, `y`, which makes the run fail, and `x`. -/
theorem batch_reports_each_line_of_twoLines : ∃ p m₀ r, Available p ∧ p.machine = .ok m₀ ∧
    (Batch.onBytes true true [120, 13, 13, 10, 121, 10, 120] (m₀.after [.run])).written =
      #["\x7b\"word\":\"x\",\"accepted\":true,\"outcome\":\"Accepted\",\"steps\":2\x7d"] ∧
    r.Shows true "\x7b\"word\":\"x\",\"accepted\":true,\"outcome\":\"Accepted\",\"steps\":2\x7d" ∧
    p.Reports [120, 13, 13] r ∧ p.Refuses [121] (.fault (.undefinedTransition "a" "y")) ∧
    (Batch.onBytes true true ([120, 10] ++ [120, 120, 10, 121]) (m₀.after [.run])).written =
      (Batch.onBytes true true [120, 10] m₀).written ++
        (Batch.onBytes true true [120, 120, 10, 121] (m₀.after [.read "z"])).written := by
  have hrun : (do
      let r ← (load "marks" twoLines {}).toOption
      let m₀ ← r.1.machine.toOption
      let result := Batch.onBytes true true [120, 13, 13, 10, 121, 10, 120] (m₀.after [.run])
      some (result.written, result.problem, (Batch.onBytes true true [120, 10] m₀).problem)) =
      some (#["\x7b\"word\":\"x\",\"accepted\":true,\"outcome\":\"Accepted\",\"steps\":2\x7d"],
        some (.fault (.undefinedTransition "a" "y")), none) := by decide +kernel
  have hpieces : pieces [120, 13, 13, 10, 121, 10, 120] = [[120, 13, 13], [121], [120]] := by
    decide +kernel
  cases hload : load "marks" twoLines {} with
  | error e =>
    rw [hload] at hrun
    cases hrun
  | ok loaded =>
    have hp : loaded.1.Available := .loaded hload
    cases hm₀ : loaded.1.machine with
    | error fault =>
      rw [hload] at hrun
      simp [Except.toOption, hm₀] at hrun
    | ok m₀ =>
      obtain ⟨hlines, hcut⟩ := batch_reports_each_line hp hm₀ true true
      obtain ⟨⟨reports, hshows, hreports, hends⟩, -, -⟩ :=
        hlines [.run] [120, 13, 13, 10, 121, 10, 120]
      obtain ⟨hwritten, hproblem, hnone⟩ : _ ∧ _ ∧ _ := by
        simpa [hload, Except.toOption, hm₀] using hrun
      rw [hwritten] at hshows
      rw [hpieces] at hreports hends
      rw [hproblem] at hends
      cases hshows with
      | cons hr hnil =>
        cases hnil
        obtain ⟨line, hline, hrefuses⟩ := hends
        cases hline
        cases hreports with
        | cons hfirst =>
          exact ⟨_, m₀, _, hp, hm₀, hwritten, hr, hfirst, hrefuses,
            (hcut [.run] [] [.read "z"] [120, 10] [120, 120, 10, 121] rfl hnone).2⟩

end Program

end SingleTape
