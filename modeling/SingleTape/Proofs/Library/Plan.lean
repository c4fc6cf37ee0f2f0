import Mathlib.Data.String.Basic
import SingleTape.Library
import SingleTape.Proofs.Machine.Ending
import SingleTape.Proofs.Program.Loading

/-!
# Plans of machines

A plan says what a machine does in phases of a type of its own, which may have parameters where a
text has a line for each of their values. A text is written after a plan if its lines are those of
the plan, and then the machine of the text goes through the phases of the plan.
-/

namespace SingleTape

open Textbook (Config Rule Rules)

/-- Phases with their names in a text, and what is to be done in each of them. -/
structure Plan (σ : Type) where
  phases : List σ
  name : σ → String
  table : σ → List (Symbol × Rule σ)
  start : σ
  accept : σ
  reject : σ
  mem_phases : ∀ q, q ∈ phases
  accept_ne_reject : accept ≠ reject
  table_accept : table accept = []
  table_reject : table reject = []

namespace Plan

variable {σ : Type} (b : Plan σ)

def rules : Rules σ := fun q s => (b.table q).lookup s

theorem rules_of_table {q : σ} {l : List (Symbol × Rule σ)} (hq : b.table q = l) {s : Symbol}
    {r : Rule σ} (h : l.lookup s = some r) : b.rules q s = some r := by
  rw [rules, hq, h]

def line (r : Rule σ) : String × Symbol × Direction := (b.name r.next, r.write, r.direction)

structure Describes (d : Description) : Prop where
  states : d.stateNames = b.phases.map b.name
  start : b.phases.head? = some b.start
  accept : d.marked .accept = [b.name b.accept]
  reject : d.marked .reject = [b.name b.reject]
  lines : ∀ t ∈ d.transitions, ∃ q ∈ b.phases, t.state = b.name q ∧
    (b.rules q t.read).map b.line = some (t.next, t.write, t.direction)
  entries : ∀ q ∈ b.phases, ∀ e ∈ b.table q, ∃ t ∈ d.transitions, t.state = b.name q ∧ t.read = e.1

structure WrittenIn (text : String) : Prop where
  size : text.utf8ByteSize ≤ ProgramError.sizeLimit
  parse : ∃ d, Description.parse text = .ok d ∧ d.check "_" = .ok () ∧ b.Describes d

variable [DecidableEq σ]

def handle (q : σ) : StateId := ⟨b.phases.idxOf q⟩

/-- The control goes through the phases of the plan. -/
structure RealizedBy (c : Control) : Prop where
  closed : c.graph.Closed
  injective : Function.Injective b.handle
  name : ∀ q, (c.graph.get? (b.handle q)).map (·.name) = some (b.name q)
  rules : ∀ q s, c.graph.rules (b.handle q) s = (b.rules q s).map (·.map b.handle)
  start : c.start = b.handle b.start
  accept : c.accept = b.handle b.accept
  reject : c.reject = b.handle b.reject

variable {b} {d : Description} {c : Control}

instance (b : Plan σ) (d : Description) : Decidable (b.Describes d) :=
  decidable_of_iff (d.stateNames = b.phases.map b.name ∧ b.phases.head? = some b.start ∧
    d.marked .accept = [b.name b.accept] ∧ d.marked .reject = [b.name b.reject] ∧
    (∀ t ∈ d.transitions, ∃ q ∈ b.phases, t.state = b.name q ∧
      (b.rules q t.read).map b.line = some (t.next, t.write, t.direction)) ∧
    ∀ q ∈ b.phases, ∀ e ∈ b.table q, ∃ t ∈ d.transitions, t.state = b.name q ∧ t.read = e.1)
    ⟨fun ⟨h₁, h₂, h₃, h₄, h₅, h₆⟩ => ⟨h₁, h₂, h₃, h₄, h₅, h₆⟩,
      fun ⟨h₁, h₂, h₃, h₄, h₅, h₆⟩ => ⟨h₁, h₂, h₃, h₄, h₅, h₆⟩⟩

/-! ## From text to plan -/

theorem handle_injective (b : Plan σ) : Function.Injective b.handle := by
  intro q q' h
  exact (List.idxOf_inj (b.mem_phases q)).mp (congrArg StateId.index h)

section Means

variable (hb : b.Describes d)

include hb

theorem Describes.stateName (q : σ) : d.stateNames[(b.handle q).index]? = some (b.name q) := by
  rw [hb.states, List.getElem?_map, handle, List.getElem?_idxOf (b.mem_phases q)]
  rfl

theorem Describes.eq_handle (hn : d.stateNames.Nodup) {id : StateId} {q : σ}
    (hid : d.stateNames[id.index]? = some (b.name q)) : id = b.handle q :=
  eq_of_nodup hn hid (hb.stateName q)

theorem Describes.eq_of_name_eq (hn : d.stateNames.Nodup) {q q' : σ} (h : b.name q = b.name q') :
    q = q' :=
  b.handle_injective (hb.eq_handle hn (h ▸ hb.stateName q))

/-- A phase has no rule for what no line is about, and otherwise the rule of the line that counts.
-/
theorem Describes.rules_eq (hn : d.stateNames.Nodup) (q : σ) (s : Symbol) :
    (b.rules q s).map b.line =
      (Description.lastLine d.transitions (b.name q) s).map fun t =>
        (t.next, t.write, t.direction) := by
  cases hline : Description.lastLine d.transitions (b.name q) s with
  | some t =>
    obtain ⟨ht, hstate, rfl⟩ := Description.mem_of_lastLine hline
    obtain ⟨q', -, hq', hrule⟩ := hb.lines t ht
    obtain rfl := hb.eq_of_name_eq hn (hstate.symm.trans hq')
    exact hrule
  | none =>
    cases hrule : b.rules q s with
    | none => rfl
    | some r =>
      obtain ⟨before, after, hentry, -⟩ := List.lookup_eq_some_iff.mp hrule
      obtain ⟨t, ht, hstate, hread⟩ := hb.entries q (b.mem_phases q) (s, r)
        (by rw [hentry]; simp)
      exact absurd ⟨hstate, hread⟩ (Description.lastLine_eq_none_iff.mp hline t ht)

/-- Whatever has the meaning of a description that a plan describes realizes the plan. -/
theorem Describes.realizedBy {blank : Symbol} (hd : d.Checked blank) (hc : Means d c)
    (hclosed : c.graph.Closed) : b.RealizedBy c where
  closed := hclosed
  injective := b.handle_injective
  name q := by rw [hc.graph.name, hb.stateName]
  rules q s := by
    have hrules := hb.rules_eq hd.nodup q s
    have hname := hb.stateName q
    unfold Graph.rules
    cases hline : Description.lastLine d.transitions (b.name q) s with
    | none =>
      rw [hline, Option.map_none, Option.map_eq_none_iff] at hrules
      rw [hc.graph.noLine hname hline, hrules]
      rfl
    | some t =>
      rw [hline, Option.map_some, Option.map_eq_some_iff] at hrules
      obtain ⟨r, hrule, heq⟩ := hrules
      obtain ⟨x, hx, hwrite, hdir, htarget⟩ := hc.graph.line hname hline
      obtain ⟨hnext, hrest⟩ := Prod.ext_iff.mp heq
      obtain ⟨hwrite', hdir'⟩ := Prod.ext_iff.mp hrest
      rw [← show b.name r.next = t.next from hnext] at htarget
      rw [hx, hrule, Option.map_some, Option.map_some, hwrite, hdir, hb.eq_handle hd.nodup htarget,
        ← show r.write = t.write from hwrite', ← show r.direction = t.direction from hdir']
      rfl
  start := by
    have hstart := hc.start
    rw [Description.startName, hb.states, List.head?_map, hb.start] at hstart
    exact hb.eq_handle hd.nodup (by rw [hb.states]; exact hstart)
  accept := by
    have haccept := hc.accept (hb.stateName b.accept)
    rw [hb.accept] at haccept
    exact (haccept.mpr (List.mem_singleton_self _)).symm
  reject := by
    have hreject := hc.reject (hb.stateName b.reject)
    rw [hb.reject] at hreject
    exact (hreject.mpr (List.mem_singleton_self _)).symm

end Means

/-- A text is read as a list of characters. -/
theorem writtenIn_of_chars {text : String} {cs : List Char} (htext : text = String.ofList cs)
    (hsize : String.utf8Len cs ≤ ProgramError.sizeLimit)
    (hread : ((Description.ofChars cs).toOption.any fun d =>
      (d.check "_").toOption.isSome ∧ b.Describes d) = true) : b.WrittenIn text := by
  refine ⟨by rwa [htext, String.utf8ByteSize_ofList], ?_⟩
  have hparse : Description.parse text = Description.ofChars cs := by
    rw [Description.parse, htext, String.toList_ofList]
  -- The computation has read the same characters and found a description.
  rw [hparse]
  cases hd : Description.ofChars cs with
  | error e =>
    rw [hd] at hread
    cases hread
  | ok d =>
    rw [hd] at hread
    obtain ⟨hcheck, hdescribes⟩ := of_decide_eq_true hread
    refine ⟨d, rfl, ?_, hdescribes⟩
    cases hv : d.check "_" with
    | error v =>
      rw [hv] at hcheck
      cases hcheck
    | ok u => rfl

/-- A text in which a plan is written is loaded, and what is loaded realizes the plan. -/
theorem WrittenIn.exists_load {text : String} (h : b.WrittenIn text) (name : String) :
    ∃ p events d, Program.load name text {} = .ok (p, events) ∧ p.Embodies name d {} ∧
      b.RealizedBy p.control := by
  obtain ⟨d, hparse, hcheck, hdescribes⟩ := h.parse
  have hchecked : d.check ({} : Settings).blank = .ok () := hcheck
  obtain ⟨p, events, hload, hp⟩ := Program.exists_load h.size hparse hchecked name
  obtain ⟨d', hparse', hmeans, -⟩ := Program.means_of_load hload
  rw [hparse] at hparse'
  cases hparse'
  exact ⟨p, events, d, hload, hp,
    hdescribes.realizedBy (Description.check_eq_ok_iff.mp hcheck) hmeans hp.closed⟩

/-! ## Runs of the plan -/

section Runs

variable (hc : b.RealizedBy c) {settings : Settings} {content : Array Symbol} {steps : Nat}
  {d : Config σ}

include hc

theorem RealizedBy.start_mem : c.start ∈ c.graph := by
  have hname := hc.name b.start
  rw [← hc.start] at hname
  obtain ⟨q, hq, -⟩ := Option.map_eq_some_iff.mp hname
  exact Graph.get?_isSome_iff.mp (by rw [hq]; rfl)

theorem RealizedBy.rules_accept (s : Symbol) : c.graph.rules c.accept s = none := by
  rw [hc.accept, hc.rules, Plan.rules, b.table_accept]
  rfl

theorem RealizedBy.rules_reject (s : Symbol) : c.graph.rules c.reject s = none := by
  rw [hc.reject, hc.rules, Plan.rules, b.table_reject]
  rfl

/-- The machine goes where the plan goes. -/
theorem RealizedBy.trajectory
    (h : (Config.initial b.start content settings.blank).trajectory b.rules steps = some d) :
    (Config.initial c.start content settings.blank).trajectory c.graph.rules steps =
      some (d.map b.handle) := by
  have hmap := Config.trajectory_map hc.rules (Config.initial b.start content settings.blank) steps
  rw [h] at hmap
  rw [hc.start]
  exact hmap

/-- A plan takes no step in an end state, so a trajectory of it is part of a run. -/
theorem RealizedBy.runsUntil
    (h : (Config.initial b.start content settings.blank).trajectory b.rules steps = some d) :
    (Config.initial c.start content settings.blank).RunsUntil c.graph.rules c.accept c.reject
      steps :=
  Config.runsUntil_of_trajectory hc.rules_accept hc.rules_reject (hc.trajectory h)

theorem RealizedBy.halted_map_iff :
    (d.map b.handle).Halted c.accept c.reject ↔ d.state = b.accept ∨ d.state = b.reject := by
  unfold Config.Halted
  rw [hc.accept, hc.reject]
  exact or_congr hc.injective.eq_iff hc.injective.eq_iff

theorem RealizedBy.runsUntil_succ
    (h : (Config.initial b.start content settings.blank).trajectory b.rules steps = some d)
    (hd : ¬ (d.state = b.accept ∨ d.state = b.reject)) :
    (Config.initial c.start content settings.blank).RunsUntil c.graph.rules c.accept c.reject
      (steps + 1) := by
  intro j hj e he hhalted
  by_cases hlt : j < steps
  · exact hc.runsUntil h j hlt e he hhalted
  · obtain rfl : j = steps := by omega
    rw [hc.trajectory h] at he
    cases he
    exact hd (hc.halted_map_iff.mp hhalted)

/-- Where the plan gets to an end state the machine halts. -/
theorem RealizedBy.haltsAt
    (h : (Config.initial b.start content settings.blank).trajectory b.rules steps = some d)
    (hd : d.state = b.accept ∨ d.state = b.reject) :
    (Config.initial c.start content settings.blank).HaltsAt c.graph.rules c.accept c.reject steps
      (d.map b.handle) where
  reached := hc.trajectory h
  halted := hc.halted_map_iff.mpr hd
  first := hc.runsUntil h

variable (settings)

/-- A run of the machine ends where the plan does, if the budget allows for it. -/
theorem RealizedBy.runsTo_halted
    (h : (Config.initial b.start content settings.blank).trajectory b.rules steps = some d)
    (hd : d.state = b.accept ∨ d.state = b.reject) (hsteps : steps ≤ settings.budget + 1) :
    (Machine.fresh c settings content).RunsTo
      (.ok (if d.state = b.accept then .accepted else .rejected)) steps (d.map b.handle)
      (settings.budget - steps) := by
  have hending := Machine.Ending.halted (hc.haltsAt h hd) hsteps
  have hverdict : Machine.verdict c (d.map b.handle) =
      if d.state = b.accept then .accepted else .rejected := by
    unfold Machine.verdict
    rw [hc.accept]
    exact if_congr hc.injective.eq_iff rfl rfl
  rw [hverdict] at hending
  exact Machine.runsTo_of_ending hc.closed hc.start_mem hending

theorem RealizedBy.runsTo_accepted
    (h : (Config.initial b.start content settings.blank).trajectory b.rules steps = some d)
    (hd : d.state = b.accept) (hsteps : steps ≤ settings.budget + 1) :
    (Machine.fresh c settings content).RunsTo (.ok .accepted) steps (d.map b.handle)
      (settings.budget - steps) := by
  have hrun := hc.runsTo_halted settings h (.inl hd) hsteps
  rwa [if_pos hd] at hrun

theorem RealizedBy.runsTo_rejected
    (h : (Config.initial b.start content settings.blank).trajectory b.rules steps = some d)
    (hd : d.state = b.reject) (hsteps : steps ≤ settings.budget + 1) :
    (Machine.fresh c settings content).RunsTo (.ok .rejected) steps (d.map b.handle)
      (settings.budget - steps) := by
  have hrun := hc.runsTo_halted settings h (.inr hd) hsteps
  rwa [if_neg (hd.trans_ne b.accept_ne_reject.symm)] at hrun

theorem RealizedBy.runsTo_exhausted
    (h : (Config.initial b.start content settings.blank).trajectory b.rules steps = some d)
    (hd : d.state = b.accept ∨ d.state = b.reject) (hsteps : settings.budget + 1 < steps) :
    ∃ e, (Machine.fresh c settings content).RunsTo (.ok .budgetExhausted) (settings.budget + 1) e
      (-1) := by
  obtain ⟨e, hending⟩ := Machine.ending_of_haltsAt_late (hc.haltsAt h hd) hsteps
  exact ⟨e, Machine.runsTo_of_ending hc.closed hc.start_mem hending⟩

/-- A trajectory that goes on longer than the budget exhausts it, wherever it leads. -/
theorem RealizedBy.runsTo_exhausted_of_running
    (h : (Config.initial b.start content settings.blank).trajectory b.rules steps = some d)
    (hd : ¬ (d.state = b.accept ∨ d.state = b.reject)) (hsteps : settings.budget < steps) :
    ∃ e, (Machine.fresh c settings content).RunsTo (.ok .budgetExhausted) (settings.budget + 1) e
      (-1) := by
  obtain ⟨e, he⟩ := Config.exists_trajectory_of_le (hc.trajectory h) hsteps
  have hrun := hc.runsUntil_succ h hd
  exact ⟨e, Machine.runsTo_of_ending hc.closed hc.start_mem
    (.exhausted he fun j hj => hrun j (by omega))⟩

/-- Where the plan has no rule the run fails, and names the state and the symbol. -/
theorem RealizedBy.runsTo_stuck
    (h : (Config.initial b.start content settings.blank).trajectory b.rules steps = some d)
    (hrule : b.rules d.state (d.cell d.head) = none)
    (hd : ¬ (d.state = b.accept ∨ d.state = b.reject)) (hsteps : steps ≤ settings.budget) :
    (Machine.fresh c settings content).RunsTo
      (.error (.undefinedTransition (b.name d.state) (d.cell d.head))) steps (d.map b.handle)
      (settings.budget - steps - 1) := by
  obtain ⟨q, hq, hname⟩ := Option.map_eq_some_iff.mp (hc.name d.state)
  have hstuck : (Config.initial c.start content settings.blank).StuckAt c.graph.rules c.accept
      c.reject steps (d.map b.handle) := by
    refine ⟨hc.trajectory h, ?_, hc.runsUntil_succ h hd⟩
    show c.graph.rules (b.handle d.state) (d.cell d.head) = none
    rw [hc.rules, hrule]
    rfl
  rw [← hname]
  exact Machine.runsTo_of_ending hc.closed hc.start_mem (.stuck hstuck hsteps hq)

end Runs

end Plan

/-! ## Built-in programs -/

def Program.withBudget (p : Program) (budget : Nat) : Program :=
  { p with settings := { p.settings with budget } }

/-- A program with another budget is the same program. -/
theorem Program.Embodies.withBudget {p : Program} {name : String} {d : Description}
    {settings : Settings} (hp : p.Embodies name d settings) (budget : Nat) :
    (p.withBudget budget).Embodies name d { settings with budget } where
  name_eq := hp.name_eq
  settings_eq := by rw [Program.withBudget, hp.settings_eq]
  nodup := hp.nodup
  stateCount := hp.stateCount
  stateName := hp.stateName
  stateId? := hp.stateId?
  start := hp.start
  accept := hp.accept
  reject := hp.reject
  accept_ne_reject := hp.accept_ne_reject
  closed := hp.closed
  transitionCount := hp.transitionCount
  alphabet := hp.alphabet

namespace Library

def Over (letters cs : List Char) : Prop := ∀ ch ∈ cs, ch ∈ letters

instance (letters cs : List Char) : Decidable (Over letters cs) := List.decidableBAll _ cs

theorem over_cons_iff {letters cs : List Char} {ch : Char} :
    Over letters (ch :: cs) ↔ ch ∈ letters ∧ Over letters cs := List.forall_mem_cons

theorem Over.of_append {letters cs rest : List Char} (h : Over letters (cs ++ rest)) :
    Over letters rest := fun ch hch => h ch (List.mem_append_right cs hch)

def machineOn (name : String) (budget : Nat) (word : String) : Except ProgramError Machine := do
  let p ← programNamed name
  let m ← (p.withBudget budget).machine.mapError .fault
  (m.reset (Machine.symbolsOfWord word)).mapError .fault

def loaded (entry : String × String) : Option Program :=
  (Program.load entry.1 entry.2 {}).toOption.map (·.1)

theorem programs_eq : programs = texts.filterMap loaded := by
  unfold programs
  congr 1

theorem load_of_loaded {entry : String × String} {p : Program} (h : loaded entry = some p) :
    ∃ events, Program.load entry.1 entry.2 {} = .ok (p, events) := by
  unfold loaded at h
  cases hload : Program.load entry.1 entry.2 {} with
  | error e =>
    rw [hload] at h
    cases h
  | ok r =>
    rw [hload] at h
    cases h
    exact ⟨r.2, rfl⟩

/-- All built-in programs are loaded from texts. -/
theorem load_of_mem_programs {p : Program} (h : p ∈ programs) :
    ∃ name text events, Program.load name text {} = .ok (p, events) := by
  rw [programs_eq] at h
  obtain ⟨entry, -, hloaded⟩ := List.mem_filterMap.mp h
  exact ⟨entry.1, entry.2, load_of_loaded hloaded⟩

theorem name_of_loaded {entry : String × String} {p : Program} (h : loaded entry = some p) :
    p.name = entry.1 := by
  obtain ⟨events, hload⟩ := load_of_loaded h
  obtain ⟨d, -, hp⟩ := Program.embodies_of_load hload
  exact hp.name_eq

/-- The name under which a text stands is the name of its program, so the first text counts. -/
theorem find?_filterMap_loaded {entries : List (String × String)} {name text : String} {p : Program}
    (htext : entries.find? (·.1 = name) = some (name, text))
    (hloaded : loaded (name, text) = some p) :
    (entries.filterMap loaded).find? (·.name = name) = some p := by
  induction entries with
  | nil => cases htext
  | cons entry entries ih =>
    -- A program has the name of its entry, so entries before are passed over.
    by_cases hname : entry.1 = name
    · rw [List.find?_cons_of_pos (by exact decide_eq_true hname)] at htext
      cases htext
      rw [List.filterMap_cons_some hloaded, List.find?_cons_of_pos]
      exact decide_eq_true (name_of_loaded hloaded)
    · rw [List.find?_cons_of_neg (by simpa using hname)] at htext
      cases hentry : loaded entry with
      | none =>
        rw [List.filterMap_cons_none hentry]
        exact ih htext
      | some p' =>
        have hne : p'.name ≠ name := name_of_loaded hentry ▸ hname
        rw [List.filterMap_cons_some hentry, List.find?_cons_of_neg (by simpa using hne)]
        exact ih htext

/-- A built-in text that can be loaded gives the program of its name. -/
theorem programNamed_of_load {name text : String} {p : Program} {events : Array Event}
    (htext : texts.find? (·.1 = name) = some (name, text))
    (hload : Program.load name text {} = .ok (p, events)) : programNamed name = .ok p := by
  have hloaded : loaded (name, text) = some p := by rw [loaded, hload]; rfl
  unfold programNamed
  rw [programs_eq, find?_filterMap_loaded htext hloaded]
  rfl

/-- A plan written in a built-in text has a machine for every word and every usable budget. -/
theorem exists_machineOn {σ : Type} [DecidableEq σ] {b : Plan σ} {name text : String}
    (htext : texts.find? (·.1 = name) = some (name, text)) (hb : b.WrittenIn text) {budget : Nat}
    (hbudget : budget ≤ 2 ^ 63 - 1) (word : String) :
    ∃ c, b.RealizedBy c ∧ machineOn name budget word =
      .ok (Machine.fresh c { budget } (Machine.symbolsOfWord word)) := by
  obtain ⟨p, events, d, hload, hp, hc⟩ := hb.exists_load name
  have hmachine := (hp.withBudget budget).machine_eq_ok_iff.mpr
    ⟨show "_" ≠ "" by decide, hbudget, rfl⟩
  refine ⟨p.control, hc, ?_⟩
  unfold machineOn
  rw [programNamed_of_load htext hload]
  show ((p.withBudget budget).machine.mapError _ >>= _) = _
  rw [hmachine]
  show (Machine.reset _ _).mapError _ = _
  rw [Machine.reset_eq_ok _ _ fun s hs => Machine.ne_empty_of_mem_symbolsOfWord hs]
  rfl

end Library

end SingleTape
