import SingleTape.Proofs.Program.Loading

/-!
# Tapes over the alphabet

What a machine of a program writes is in the alphabet of the program, so its tape never holds
anything else. A run can then only fail for a declared state and a symbol of the alphabet that no
line is about, and not at all if there is a line for each of them.
-/

namespace SingleTape

def Tape.Over (t : Tape) (alphabet : List Symbol) : Prop := ∀ s ∈ t.cells, s ∈ alphabet

namespace Tape

variable {alphabet : List Symbol} {blank : Symbol}

/-- A content over an alphabet with the empty symbol makes a tape over it. -/
theorem over_ofContent {content : Array Symbol} (hcontent : ∀ s ∈ content, s ∈ alphabet)
    (hblank : blank ∈ alphabet) : (ofContent content blank).Over alphabet := by
  intro s hs
  rw [cells_ofContent, Array.mem_push] at hs
  rcases hs with hs | rfl
  · exact hcontent s hs
  · exact hblank

/-- A symbol of the alphabet leaves the tape over the alphabet. -/
theorem Over.write {t : Tape} (ht : t.Over alphabet) {s : Symbol} (hs : s ∈ alphabet)
    (hblank : blank ∈ alphabet) (direction : Direction) :
    (t.write s direction blank).Over alphabet := by
  have hset : ∀ r ∈ t.cells.set t.head s t.head_lt_size, r ∈ alphabet := by
    intro r hr
    rcases Array.mem_or_eq_of_mem_set hr with hr | rfl
    · exact ht r hr
    · exact hs
  intro r hr
  rw [cells_write] at hr
  split at hr
  · exact hset r hr
  · rcases Array.mem_push.mp hr with hr | rfl
    · exact hset r hr
    · exact hblank

theorem Over.symbol {t : Tape} (ht : t.Over alphabet) : t.symbol ∈ alphabet :=
  ht _ (Array.getElem_mem t.head_lt_size)

end Tape

/-- Every state that is neither accepting nor rejecting has a line for every symbol of the
alphabet. -/
def Description.Complete (d : Description) (alphabet : List Symbol) : Prop :=
  ∀ q ∈ d.stateNames, q ∉ d.marked .accept → q ∉ d.marked .reject →
    ∀ s ∈ alphabet, ∃ t ∈ d.transitions, t.state = q ∧ t.read = s

instance (d : Description) (alphabet : List Symbol) : Decidable (d.Complete alphabet) :=
  inferInstanceAs (Decidable (∀ q ∈ d.stateNames, q ∉ d.marked .accept → q ∉ d.marked .reject →
    ∀ s ∈ alphabet, ∃ t ∈ d.transitions, t.state = q ∧ t.read = s))

namespace Machine

/-- The machine goes by the lines of the description, in one of its states, and neither its tape
nor the lines lead out of the alphabet. -/
structure Within (m : Machine) (d : Description) (alphabet : List Symbol) : Prop where
  means : Means d m.control
  writes : ∀ t ∈ d.transitions, t.write ∈ alphabet
  blank : m.settings.blank ∈ alphabet
  state : ∃ q, d.stateNames[m.state.index]? = some q
  tape : m.tape.Over alphabet

variable {m : Machine} {d : Description} {alphabet : List Symbol}

/-- A content over the alphabet puts the machine back where it may be. -/
theorem Within.fresh (hm : m.Within d alphabet) {content : Array Symbol}
    (hcontent : ∀ s ∈ content, s ∈ alphabet) :
    (fresh m.control m.settings content).Within d alphabet where
  means := hm.means
  writes := hm.writes
  blank := hm.blank
  state := ⟨_, hm.means.start⟩
  tape := Tape.over_ofContent hcontent hm.blank

/-- The symbol read need not be one of the alphabet, since what is written comes from a line. -/
theorem Within.read (hm : m.Within d alphabet) (s : Symbol) : (m.read s).2.Within d alphabet := by
  obtain ⟨q, hq⟩ := hm.state
  have hcontrol := control_read m s
  have hsettings := settings_read m s
  rcases read_line_cases hm.means hq s with
    ⟨t, ht, -, -, move, m', hread, htape, hnext⟩ | ⟨-, hread⟩
  · rw [hread] at hcontrol hsettings ⊢
    refine ⟨?_, hm.writes, ?_, ⟨t.next, hnext⟩, ?_⟩
    · rw [hcontrol]
      exact hm.means
    · rw [hsettings]
      exact hm.blank
    · rw [htape]
      exact hm.tape.write (hm.writes t ht) hm.blank t.direction
  · rw [hread]
    exact ⟨hm.means, hm.writes, hm.blank, hm.state, hm.tape⟩

theorem Within.after (hm : m.Within d alphabet) {calls : List Call}
    (hcalls : ∀ content, .reset content ∈ calls → ∀ s ∈ content, s ∈ alphabet) :
    (m.after calls).Within d alphabet :=
  after_preserves (P := fun m => m.Within d alphabet) (fun _ s hd => hd.read s)
    (fun content hmem _ hd => hd.fresh (hcalls content hmem)) hm

/-- A step reads a symbol of the alphabet, so this is what it can fail for. -/
theorem Within.undefined (hm : m.Within d alphabet) {fault : Fault} (h : m.step.1 = .error fault) :
    ∃ q s, fault = .undefinedTransition q s ∧ d.stateNames[m.state.index]? = some q ∧
      s ∈ alphabet ∧ ∀ t ∈ d.transitions, ¬ (t.state = q ∧ t.read = s) := by
  obtain ⟨q, hq⟩ := hm.state
  rcases read_line_cases hm.means hq m.tape.symbol with
    ⟨t, -, -, -, move, m', hread, -, -⟩ | ⟨hnone, hread⟩
  · rw [step, hread] at h
    cases h
  · rw [step, hread] at h
    cases h
    exact ⟨q, m.tape.symbol, rfl, hq, hm.tape.symbol, hnone⟩

/-- With a line for whatever it can read, a running machine does not fail. -/
theorem Within.exists_run (hm : m.Within d alphabet) (hd : d.Complete alphabet) :
    ∃ o, m.run.1 = .ok o := by
  cases hrun : m.run.1 with
  | ok o => exact ⟨o, rfl⟩
  | error fault =>
    obtain ⟨e, he, hstatus, hfail⟩ := exists_failing_step_of_run
      (P := fun m => m.Within d alphabet) (fun _ s he => he.read s) hm hrun
    obtain ⟨q, s, -, hq, hs, hnone⟩ := he.undefined hfail
    obtain ⟨haccept, hreject, -⟩ := status_eq_running_iff.1 hstatus
    obtain ⟨t, ht, hkey⟩ := hd q (List.mem_of_getElem? hq)
      (fun hmem => haccept ((he.means.accept hq).mpr hmem))
      (fun hmem => hreject ((he.means.reject hq).mpr hmem)) s hs
    exact absurd hkey (hnone t ht)

end Machine

namespace Program

variable {name text : String} {settings : Settings} {d : Description} {p : Program}
  {events : Array Event}

theorem Embodies.within_fresh (hp : p.Embodies name d settings) (hd : d.Checked settings.blank)
    (hmeans : Means d p.control) {content : Array Symbol}
    (hcontent : ∀ s ∈ content, s ∈ p.alphabet) :
    (Machine.fresh p.control settings content).Within d p.alphabet where
  means := hmeans
  writes t ht := hp.mem_alphabet_iff.mpr (hd.known t ht).2
  blank := hp.mem_alphabet_iff.mpr List.mem_cons_self
  state := ⟨_, hmeans.start⟩
  tape := Tape.over_ofContent hcontent (hp.mem_alphabet_iff.mpr List.mem_cons_self)

/-- The tape of a machine of a program stays over the alphabet, whatever is read and whatever
contents over the alphabet are put on it. A step or a run that finds no transition tells of a
declared state and a symbol of the alphabet for which there is no line. If there are lines for all
of them, runs on contents over the alphabet do not fail. -/
theorem stays_over_alphabet (hload : load name text settings = .ok (p, events))
    (hblank : settings.blank ≠ "") (hbudget : settings.budget ≤ 2 ^ 63 - 1) :
    ∃ d m₀, Description.parse text = .ok d ∧ p.machine = .ok m₀ ∧
      (∀ calls, (∀ content, .reset content ∈ calls → ∀ s ∈ content, s ∈ p.alphabet) →
        (m₀.after calls).tape.Over p.alphabet ∧
        ∀ c ∈ [Machine.Call.step, .run, .begin], ∀ fault,
          ((m₀.after calls).perform c).1 = .error fault →
          ∃ q s, fault = .undefinedTransition q s ∧ q ∈ d.stateNames ∧ s ∈ p.alphabet ∧
            ∀ t ∈ d.transitions, ¬ (t.state = q ∧ t.read = s)) ∧
      (d.Complete p.alphabet → ∀ calls content, (∀ s ∈ content, s ∈ p.alphabet) →
        ∃ m o, (m₀.after calls).reset content = .ok m ∧ m.run.1 = .ok o) := by
  obtain ⟨d, hparse, hd, hmeans, hp⟩ := exists_description hload
  refine ⟨d, Machine.fresh p.control settings #[], hparse,
    hp.machine_eq_ok_iff.mpr ⟨hblank, hbudget, rfl⟩, fun calls hcalls => ?_,
    fun hcomplete calls content hcontent => ?_⟩
  · have hfresh : (Machine.fresh p.control settings #[]).Within d p.alphabet :=
      hp.within_fresh hd hmeans (by simp)
    have hm := hfresh.after hcalls
    refine ⟨hm.tape, fun c hc fault hfail => ?_⟩
    -- A call that fails has met a step that fails, within the alphabet.
    obtain ⟨e, he, hstep⟩ := Machine.exists_failing_step_of_perform
      (P := fun m => m.Within d p.alphabet) (fun _ s he => he.read s) hm hc hfail
    obtain ⟨q, s, hfault, hq, hs, hnone⟩ := he.undefined hstep
    exact ⟨q, s, hfault, List.mem_of_getElem? hq, hs, hnone⟩
  · have hne : ∀ s ∈ content, s ≠ "" := by
      intro s hs
      rcases List.mem_cons.mp (hp.mem_alphabet_iff.mp (hcontent s hs)) with rfl | hs
      · exact hblank
      · exact Description.ne_empty_of_parse hparse s hs
    -- With a line for every symbol there is always a step to take, so the run comes to an end.
    obtain ⟨o, ho⟩ := (hp.within_fresh hd hmeans hcontent).exists_run hcomplete
    refine ⟨Machine.fresh p.control settings content, o, ?_, ho⟩
    rw [Machine.reset_eq_ok _ content hne, Machine.control_after, Machine.settings_after]
    rfl

/-- There is a line for each of the two symbols, the blank among them. -/
def eraser : String := "states 3\na\nb +\nc -\nalphabet 1 x\na x a _ R\na _ b _ R\n"

/-- The symbol that is read first is not one of the alphabet, and leaves no mark on the tape. -/
theorem stays_over_alphabet_of_eraser : ∃ p events m₀,
    load "eraser" eraser {} = .ok (p, events) ∧ p.machine = .ok m₀ ∧
      (m₀.after [.reset #["x", "x"], .read "q", .step, .run]).tape.Over ["x", "_"] ∧
      ∃ m o, m₀.reset #["x", "_", "x"] = .ok m ∧ m.run.1 = .ok o := by
  have hread : (do
      let r ← (load "eraser" eraser {}).toOption
      let d ← (Description.parse eraser).toOption
      pure (r.1.alphabet = ["x", "_"] ∧ d.Complete ["x", "_"] : Bool)) = some true := by
    decide +kernel
  cases hload : load "eraser" eraser {} with
  | error e =>
    rw [hload] at hread
    cases hread
  | ok r =>
    obtain ⟨p, events⟩ := r
    obtain ⟨d, m₀, hparse, hmachine, hstays, hruns⟩ :=
      stays_over_alphabet hload (by decide) (by decide)
    rw [hload, hparse] at hread
    obtain ⟨halphabet, hcomplete⟩ := of_decide_eq_true (Option.some.inj hread)
    rw [halphabet] at hstays hruns
    refine ⟨p, events, m₀, rfl, hmachine, ?_, hruns hcomplete [] #["x", "_", "x"] (by decide)⟩
    refine (hstays [.reset #["x", "x"], .read "q", .step, .run] ?_).1
    intro content hmem
    obtain rfl : content = #["x", "x"] := by simpa using hmem
    decide

end Program

end SingleTape
