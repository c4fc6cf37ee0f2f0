import Mathlib.Data.Set.Function
import SingleTape.Proofs.Description.Reachable
import SingleTape.Proofs.Program.Renaming

/-!
# The order of lines

The order of the lines of a description matters in two ways only: the state that is declared first
is where machines start, and of the lines for a state and a symbol the last one counts. Any other
change of order gives a program that differs in the numbers of its states.
-/

namespace SingleTape

open Description (Marker lastLine)

namespace Description

/-- The second description has the lines of the first in another order. The first state stays first,
and the lines for the same state and symbol stay in their order. -/
structure Reorders (d d' : Description) : Prop where
  declaredStates : d'.declaredStates = d.declaredStates
  declaredAlphabet : d'.declaredAlphabet = d.declaredAlphabet
  alphabet : d'.alphabet = d.alphabet
  first : d'.states.head? = d.states.head?
  states : d'.states.Perm d.states
  transitions : d'.transitions.Perm d.transitions
  sameKey : ∀ k, d'.transitions.filter (·.key = k) = d.transitions.filter (·.key = k)

variable {d d' : Description} {blank : Symbol}

/-- Of the keys only those of lines matter: there are no lines for any other, in either order. -/
theorem reorders_iff : d.Reorders d' ↔ d'.declaredStates = d.declaredStates ∧
    d'.declaredAlphabet = d.declaredAlphabet ∧ d'.alphabet = d.alphabet ∧
    d'.states.head? = d.states.head? ∧ d'.states.Perm d.states ∧
    d'.transitions.Perm d.transitions ∧ ∀ u ∈ d.transitions,
      d'.transitions.filter (·.key = u.key) = d.transitions.filter (·.key = u.key) := by
  constructor
  · intro h
    exact ⟨h.declaredStates, h.declaredAlphabet, h.alphabet, h.first, h.states, h.transitions,
      fun u _ => h.sameKey u.key⟩
  · rintro ⟨hdeclared, hsize, halphabet, hfirst, hstates, htransitions, hkeys⟩
    refine ⟨hdeclared, hsize, halphabet, hfirst, hstates, htransitions, fun k => ?_⟩
    -- A key that no line has is none to keep in order.
    by_cases hk : ∃ u ∈ d.transitions, u.key = k
    · obtain ⟨u, hu, rfl⟩ := hk
      exact hkeys u hu
    · have hnone : d.transitions.filter (·.key = k) = [] := by
        rw [List.filter_eq_nil_iff]
        intro u hu hkey
        exact hk ⟨u, hu, of_decide_eq_true hkey⟩
      rw [hnone, ← List.perm_nil, ← hnone]
      exact htransitions.filter _

instance : Decidable (d.Reorders d') := decidable_of_iff _ reorders_iff.symm

theorem Reorders.stateNames (h : d.Reorders d') : d'.stateNames.Perm d.stateNames :=
  h.states.map _

theorem Reorders.marked (h : d.Reorders d') (m : Marker) : (d'.marked m).Perm (d.marked m) :=
  (h.states.filter _).map _

theorem Reorders.startName (h : d.Reorders d') : d'.startName = d.startName := by
  rw [Description.startName, Description.startName, Description.stateNames, Description.stateNames,
    List.head?_map, List.head?_map, h.first]

/-- Only lines with the same key compete for being the last. -/
theorem Reorders.lastLine (h : d.Reorders d') (q : String) (s : Symbol) :
    lastLine d'.transitions q s = lastLine d.transitions q s := by
  rw [lastLine_eq_getLast?_key, lastLine_eq_getLast?_key, h.sameKey]

/-- The order of lines breaks no requirement. -/
theorem Reorders.checked (h : d.Reorders d') (hd : d.Checked blank) : d'.Checked blank where
  stateCount := by rw [h.states.length_eq, h.declaredStates, hd.stateCount]
  states hnil := by
    apply hd.states
    rw [← List.length_eq_zero_iff, ← h.states.length_eq, hnil]
    rfl
  nodup := h.stateNames.nodup_iff.mpr hd.nodup
  accept := by rw [(h.marked .accept).length_eq, hd.accept]
  reject := by rw [(h.marked .reject).length_eq, hd.reject]
  alphabetSize := by rw [h.alphabet, h.declaredAlphabet, hd.alphabetSize]
  declared t ht := by
    obtain ⟨hstate, hnext⟩ := hd.declared t (h.transitions.mem_iff.mp ht)
    exact ⟨h.stateNames.mem_iff.mpr hstate, h.stateNames.mem_iff.mpr hnext⟩
  known t ht := by
    rw [h.alphabet]
    exact hd.known t (h.transitions.mem_iff.mp ht)

/-- The order of lines makes no difference to what can be reached. -/
theorem Reorders.reachable_iff (h : d.Reorders d') (q : String) :
    d'.Reachable q ↔ d.Reachable q := by
  have hleads : Leads d'.edges = Leads d.edges := by
    funext a b
    exact propext (h.transitions.map _).mem_iff
  rw [Reachable, Reachable, hleads, h.startName]

/-- The same names are reported, in another order perhaps. -/
theorem Reorders.unreachableStates (h : d.Reorders d') :
    d'.unreachableStates.Perm d.unreachableStates := by
  rw [unreachableStates_eq_filter, unreachableStates_eq_filter,
    List.filter_congr fun q _ => decide_eq_decide.mpr (not_congr (h.reachable_iff q))]
  exact h.stateNames.filter _

def place (d d' : Description) (id : StateId) : StateId :=
  ⟨d'.stateNames.idxOf (d.stateNames.getD id.index "")⟩

/-- A state is found at its new place. -/
theorem Reorders.getElem?_place (h : d.Reorders d') {id : StateId} {q : String}
    (hq : d.stateNames[id.index]? = some q) :
    d'.stateNames[(place d d' id).index]? = some q := by
  have hmem : q ∈ d'.stateNames := h.stateNames.mem_iff.mpr (List.mem_of_getElem? hq)
  rw [place, List.getD_eq_getElem?_getD, hq, Option.getD_some]
  exact List.getElem?_idxOf hmem

end Description

/-- The two programs have the same states and transitions up to a correspondence of handles, under
which states keep their names and roles. -/
structure Program.Isomorphic (p p' : Program) (φ : StateId → StateId) : Prop where
  bijOn : Set.BijOn φ {id | id ∈ p.control.graph} {id | id ∈ p'.control.graph}
  name : ∀ id ∈ p.control.graph,
    (p'.control.graph.get? (φ id)).map (·.name) = (p.control.graph.get? id).map (·.name)
  start : p'.control.start = φ p.control.start
  accept : p'.control.accept = φ p.control.accept
  reject : p'.control.reject = φ p.control.reject
  rules : ∀ id ∈ p.control.graph, ∀ s,
    p'.control.graph.rules (φ id) s = (p.control.graph.rules id s).map (·.map φ)
  transitionCount : p'.transitionCount = p.transitionCount

/-- Machines that differ in their handles only do the same. -/
theorem Machine.Mirrors.run_of_handles {φ : StateId → StateId} {m m' : Machine}
    (h : m.Mirrors ⟨φ, id, id⟩ m') :
    m'.run.1 = m.run.1 ∧ m'.run.2.steps = m.run.2.steps ∧ m'.run.2.tape = m.run.2.tape ∧
      m'.run.2.currentState.map (·.name) = m.run.2.currentState.map (·.name) := by
  obtain ⟨hanswer, hlast⟩ := h.run
  refine ⟨?_, hlast.steps, ?_, hlast.currentState⟩
  · rw [hanswer]
    cases m.run.1 with
    | ok o => rfl
    | error fault => exact congrArg Except.error (Renaming.fault_eq_self _ rfl rfl fault)
  · rw [hlast.tape, Tape.map_id]

namespace Program

variable {name name' text : String} {settings : Settings} {d d' : Description} {p p' : Program}

/-- The two controls differ only in where the states are. -/
theorem corresponds_of_reorders (h : d.Reorders d') (hd : d.Checked settings.blank)
    (hmeans : Means d p.control) (hmeans' : Means d' p'.control) :
    p.control.Corresponds ⟨Description.place d d', id, id⟩ p'.control := by
  refine hmeans.corresponds hmeans' (h.checked hd).nodup h.getElem?_place ?_ h.startName ?_
  · intro q s
    show lastLine d'.transitions q s = (lastLine d.transitions q s).map id
    rw [Option.map_id, id, h.lastLine]
  · exact fun m q => (h.marked m).mem_iff

/-- The new places are those of the same number of states, each taken once. -/
theorem bijOn_place (h : d.Reorders d') (hd : d.Checked settings.blank)
    (hmeans : Means d p.control) (hmeans' : Means d' p'.control) :
    Set.BijOn (Description.place d d') {id | id ∈ p.control.graph}
      {id | id ∈ p'.control.graph} := by
  refine ⟨?_, ?_, ?_⟩
  · intro id hid
    obtain ⟨q, hq⟩ := hmeans.graph.exists_name hid
    exact hmeans'.graph.mem_iff.mpr (List.getElem?_eq_some_iff.mp (h.getElem?_place hq)).1
  · intro id hid id' hid' heq
    obtain ⟨q, hq⟩ := hmeans.graph.exists_name hid
    obtain ⟨q', hq'⟩ := hmeans.graph.exists_name hid'
    have hplace := h.getElem?_place hq
    rw [heq, h.getElem?_place hq'] at hplace
    cases hplace
    exact eq_of_nodup hd.nodup hq hq'
  -- A state of the second graph has a name, and the name has a place in the first one.
  · intro id' hid'
    obtain ⟨q, hq'⟩ := hmeans'.graph.exists_name hid'
    obtain ⟨i, hq⟩ := List.getElem?_of_mem (h.stateNames.mem_iff.mp (List.mem_of_getElem? hq'))
    refine ⟨⟨i⟩, hmeans.graph.mem_iff.mpr (List.getElem?_eq_some_iff.mp hq).1, ?_⟩
    exact eq_of_nodup (h.checked hd).nodup (h.getElem?_place hq) hq'

/-- The two programs are the same but for the places of the states. -/
theorem isomorphic_of_reorders (h : d.Reorders d') (hd : d.Checked settings.blank)
    (hp : p.Embodies name d settings) (hp' : p'.Embodies name' d' settings)
    (hmeans : Means d p.control) (hmeans' : Means d' p'.control) :
    p.Isomorphic p' (Description.place d d') := by
  have hcorresponds := corresponds_of_reorders h hd hmeans hmeans'
  refine ⟨bijOn_place h hd hmeans hmeans', ?_, hcorresponds.start,
    ((hcorresponds.accept _ hp.roles.1).mpr rfl).symm,
    ((hcorresponds.reject _ hp.roles.2.1).mpr rfl).symm, hcorresponds.rules, ?_⟩
  · intro id hid
    obtain ⟨q, hq⟩ := Graph.exists_get?_of_mem hid
    rw [hq]
    exact hcorresponds.name hq
  · rw [hp.transitionCount, hp'.transitionCount,
      List.toFinset_eq_of_perm _ _ (h.transitions.map (·.key))]

/-- The order of independent lines does not matter. It changes neither the check nor the set of
states that are reported as unreachable, the programs are isomorphic, and their machines do the same
with every content. -/
theorem reordered_runs_alike (hparse : Description.parse text = .ok d)
    (hblank : settings.blank ≠ "") (hbudget : settings.budget ≤ 2 ^ 63 - 1)
    (hcheck : d.check settings.blank = .ok ()) (hd' : d.Reorders d') (name name' : String) :
    d'.check settings.blank = .ok () ∧ d'.unreachableStates.Perm d.unreachableStates ∧
    ∃ p events p' events' φ m₀ m₀', compile name d settings = .ok (p, events) ∧
      compile name' d' settings = .ok (p', events') ∧ p.Isomorphic p' φ ∧
      p.machine = .ok m₀ ∧ p'.machine = .ok m₀' ∧ ∀ content,
        (∀ fault, m₀'.reset content = .error fault ↔ m₀.reset content = .error fault) ∧
        ∀ m, m₀.reset content = .ok m → ∃ m', m₀'.reset content = .ok m' ∧
          m'.run.1 = m.run.1 ∧ m'.run.2.steps = m.run.2.steps ∧ m'.run.2.tape = m.run.2.tape ∧
          m'.run.2.currentState.map (·.name) = m.run.2.currentState.map (·.name) := by
  have hd := Description.check_eq_ok_iff.mp hcheck
  have hwrite := Description.write_ne_empty_of_parse hparse
  obtain ⟨p, events, hcompile⟩ := exists_compile hd hwrite name settings
  obtain ⟨p', events', hcompile'⟩ := exists_compile (hd'.checked hd)
    (fun t ht => hwrite t (hd'.transitions.mem_iff.mp ht)) name' settings
  have hp := embodies_of_compile hd hcompile
  have hp' := embodies_of_compile (hd'.checked hd) hcompile'
  obtain ⟨hmeans, -⟩ := means_of_compile hd hcompile
  obtain ⟨hmeans', -⟩ := means_of_compile (hd'.checked hd) hcompile'
  refine ⟨Description.check_eq_ok_iff.mpr (hd'.checked hd), hd'.unreachableStates, p, events, p',
    events', Description.place d d', _, _, hcompile, hcompile',
    isomorphic_of_reorders hd' hd hp hp' hmeans hmeans',
    hp.machine_eq_ok_iff.mpr ⟨hblank, hbudget, rfl⟩,
    hp'.machine_eq_ok_iff.mpr ⟨hblank, hbudget, rfl⟩, fun content => ⟨?_, ?_⟩⟩
  · intro fault
    rw [Machine.reset_eq_error_iff, Machine.reset_eq_error_iff]
  · intro m hm
    obtain ⟨hcontent, rfl⟩ := Machine.reset_eq_ok_iff.mp hm
    refine ⟨_, Machine.reset_eq_ok_iff.mpr ⟨hcontent, rfl⟩, ?_⟩
    have hmirrors : (Machine.fresh p.control settings content).Mirrors
        ⟨Description.place d d', id, id⟩ (Machine.fresh p'.control settings (content.map id)) :=
      Machine.mirrors_fresh (corresponds_of_reorders hd' hd hmeans hmeans') hp.closed hp.roles.2.2
        (by rfl) (by rfl) content
    rw [Array.map_id] at hmirrors
    exact hmirrors.run_of_handles

/-- The lines of `twoLines` in another order. The two lines for `a` and `x` stay in theirs. -/
def twoLinesReordered : Description where
  declaredStates := 3
  states := [⟨"a", none⟩, ⟨"c", some .reject⟩, ⟨"b", some .accept⟩]
  declaredAlphabet := 2
  alphabet := ["x", "y"]
  transitions := [⟨"a", "_", "b", "_", .right, 8⟩, ⟨"a", "x", "c", "x", .left, 6⟩,
    ⟨"a", "x", "a", "y", .right, 7⟩]

/-- The accept state has another handle in the second program. -/
theorem reordered_runs_alike_of_twoLines : ∃ d p events p' events' φ m₀ m₀' m m',
    Description.parse twoLines = .ok d ∧ d.Reorders twoLinesReordered ∧
      compile "marks" d {} = .ok (p, events) ∧
      compile "marks" twoLinesReordered {} = .ok (p', events') ∧ p.Isomorphic p' φ ∧
      p.control.accept = ⟨1⟩ ∧ φ ⟨1⟩ = ⟨2⟩ ∧
      p.machine = .ok m₀ ∧ m₀.reset #["x", "x"] = .ok m ∧
      p'.machine = .ok m₀' ∧ m₀'.reset #["x", "x"] = .ok m' ∧
      m.run.1 = .ok .accepted ∧ m'.run.1 = .ok .accepted := by
  have hread : (do
      let d ← (Description.parse twoLines).toOption
      guard (d.Reorders twoLinesReordered)
      let _ ← (d.check "_").toOption
      let r ← (compile "marks" d {}).toOption
      let r' ← (compile "marks" twoLinesReordered {}).toOption
      let m₀ ← r.1.machine.toOption
      let m ← (m₀.reset #["x", "x"]).toOption
      let answer ← m.run.1.toOption
      pure (r.1.control.accept = ⟨1⟩ ∧ r'.1.control.accept = ⟨2⟩ ∧ answer = .accepted : Bool)) =
        some true := by decide +kernel
  cases hparse : Description.parse twoLines with
  | error e =>
    rw [hparse] at hread
    cases hread
  | ok d =>
    by_cases hd : d.Reorders twoLinesReordered
    · cases hcheck : d.check "_" with
      | error v => simp [hparse, hd, hcheck, guard, Except.toOption] at hread
      | ok u =>
        obtain ⟨-, -, p, events, p', events', φ, m₀, m₀', hcompile, hcompile', hiso, hm₀, hm₀',
          hruns⟩ := reordered_runs_alike hparse (show Settings.blank {} ≠ "" by decide) (by decide)
            hcheck hd "marks" "marks"
        have hm := Machine.reset_eq_ok m₀ #["x", "x"] (by decide)
        obtain ⟨m', hm', hanswer, -⟩ := (hruns #["x", "x"]).2 _ hm
        cases hrun : (Machine.fresh m₀.control m₀.settings #["x", "x"]).run.1 with
        | error fault =>
          simp [hparse, hd, hcheck, hcompile, hcompile', hm₀, hm, hrun, guard, Except.toOption]
            at hread
        | ok o =>
          obtain ⟨haccept, haccept', rfl⟩ : p.control.accept = ⟨1⟩ ∧ p'.control.accept = ⟨2⟩ ∧
              o = .accepted := by
            simpa [hparse, hd, hcheck, hcompile, hcompile', hm₀, hm, hrun, guard, Except.toOption]
              using hread
          refine ⟨d, p, events, p', events', φ, m₀, m₀', _, m', rfl, hd, hcompile, hcompile', hiso,
            haccept, ?_, hm₀, hm, hm₀', hm', hrun, hanswer.trans hrun⟩
          rw [← haccept, ← hiso.accept, haccept']
    · simp [hparse, hd, guard, Except.toOption] at hread

end Program

end SingleTape
