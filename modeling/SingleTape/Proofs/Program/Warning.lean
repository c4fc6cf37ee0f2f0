import Mathlib.Data.List.Induction
import SingleTape.Proofs.Program.Loading

/-!
# What a load warns of

Of several transition lines for one state and symbol the last one counts. Each line that takes the
place of an earlier one is told of while the lines are stored, so none is lost without a word, and
the lines that are told of make up the difference between lines and transitions.
-/

namespace SingleTape

open Description (TransitionLine lastLine lastLine_append_singleton)

/-- The transition lines for whose state and symbol there is an earlier line, with their positions
among the lines. -/
def Description.repeated (lines : List TransitionLine) : List (TransitionLine × Nat) :=
  lines.zipIdx.filter fun e => e.1.key ∈ (lines.take e.2).map (·.key)

/-- The events that tell of the lines that take the place of earlier ones. -/
def Description.replacements (name : String) (lines : List TransitionLine) : List Event :=
  (Description.repeated lines).map fun e => .replaced name e.1.state e.1.read e.1.line

/-- What is found for the state and the symbol of the line is what the line says. -/
def Program.Answers (p : Program) (t : TransitionLine) : Prop :=
  ∃ id q x, p.stateId? t.state = some id ∧ p.control.graph.state id = .ok q ∧
    q.lookup t.read = .ok x ∧ x.write = t.write ∧ x.direction = t.direction ∧
    p.stateId? t.next = some x.target

/-! ## Lines that have been there before -/

namespace Description

variable {lines : List TransitionLine} {t u : TransitionLine} {i j : Nat}

/-- A line whose key was there before is listed, with its place. -/
theorem mem_repeated (hij : i < j) (ht : lines[i]? = some t) (hu : lines[j]? = some u)
    (hkey : t.key = u.key) : (u, j) ∈ repeated lines := by
  rw [repeated, List.mem_filter, List.mk_mem_zipIdx_iff_getElem?]
  refine ⟨hu, ?_⟩
  have hmem : t ∈ lines.take j := List.mem_of_getElem? (by rw [List.getElem?_take_of_lt hij, ht])
  simpa [← hkey] using List.mem_map_of_mem (f := (·.key)) hmem

theorem repeated_append_singleton (lines : List TransitionLine) (t : TransitionLine) :
    repeated (lines ++ [t]) =
      repeated lines ++ if t.key ∈ lines.map (·.key) then [(t, lines.length)] else [] := by
  have hold : lines.zipIdx.filter (fun e => e.1.key ∈ ((lines ++ [t]).take e.2).map (·.key)) =
      repeated lines := by
    apply List.filter_congr
    intro e he
    have hlt := List.snd_lt_of_mem_zipIdx he
    rw [List.take_append_of_le_length (by omega)]
  rw [← hold, repeated, List.zipIdx_append, List.filter_append, List.zipIdx_singleton]
  simp [List.filter_singleton]

/-- A line has a new key or is told of. -/
theorem length_repeated (lines : List TransitionLine) :
    (repeated lines).length + (lines.map (·.key)).toFinset.card = lines.length := by
  induction lines using List.reverseRecOn with
  | nil => rfl
  | append_singleton lines t ih =>
    rw [repeated_append_singleton, List.length_append, List.length_append,
      card_keys_append_singleton, List.length_singleton]
    split
    · rw [List.length_singleton]
      omega
    · rw [List.length_nil]
      omega

/-- Where there is a line for a key, there is a position of the last one. -/
theorem exists_last {q : String} {s : Symbol} (h : lastLine lines q s = some u) :
    ∃ j, lines[j]? = some u ∧
      ∀ (i : Nat) t, lines[i]? = some t → t.key = (q, s) → i ≤ j := by
  induction lines using List.reverseRecOn with
  | nil => cases h
  | append_singleton lines t ih =>
    have hlast {i : Nat} {v : TransitionLine} (hv : (lines ++ [t])[i]? = some v) :
        i < lines.length ∧ lines[i]? = some v ∨ i = lines.length ∧ v = t := by
      rw [List.getElem?_append] at hv
      split at hv
      · exact .inl ⟨‹_›, hv⟩
      · rw [List.getElem?_singleton] at hv
        split at hv
        · cases hv
          exact .inr ⟨by omega, rfl⟩
        · cases hv
    -- The new line is the last one if its key is asked for, and otherwise makes no difference.
    rw [lastLine_append_singleton] at h
    split at h
    · cases h
      refine ⟨lines.length, by simp, fun i v hv _ => ?_⟩
      rcases hlast hv with ⟨hi, -⟩ | ⟨hi, -⟩ <;> omega
    · rename_i hne
      obtain ⟨j, hj, hafter⟩ := ih h
      have hlt := (List.getElem?_eq_some_iff.mp hj).1
      refine ⟨j, by rw [List.getElem?_append_left hlt, hj], fun i v hv hkey => ?_⟩
      rcases hlast hv with ⟨-, hv⟩ | ⟨-, rfl⟩
      · exact hafter i v hv hkey
      · exact absurd (Prod.mk.inj hkey) hne

end Description

open Description (replacements)

/-! ## Storing lines -/

section Storing

variable {g h : Graph} {names : List String} {lines : List TransitionLine} {name : String}
  {events events' : Array Event}

/-- Whether there is an entry to take the place of tells whether there has been a line. -/
theorem Realizes.contains_iff (hg : Realizes g names lines) {id : StateId} {q : State} {s : Symbol}
    {n : String} (hid : names[id.index]? = some n) (hq : g.state id = .ok q) :
    q.table.contains s = true ↔ (n, s) ∈ lines.map (·.key) := by
  rw [← hg.transition?_isSome_iff hid, Graph.transition?, Graph.state_eq_ok_iff.mp hq]
  rfl

/-- A stored line is told of exactly when it replaces another. -/
theorem Realizes.events_storeLine (hg : Realizes g names lines) {t : TransitionLine}
    (hevents : events.toList = replacements name lines)
    (hh : Program.storeLine name (g, events) t = .ok (h, events')) :
    events'.toList = replacements name (lines ++ [t]) := by
  unfold Program.storeLine at hh
  dsimp only at hh
  simp only [bind_eq_ok_iff, mapError_eq_ok_iff] at hh
  obtain ⟨source, hsource, target, -, q, hq, g', -, heq⟩ := hh
  cases heq
  have hcontains := hg.contains_iff (s := t.read) (hg.get?_of_find? (find?_of_handleOf hsource)) hq
  rw [replacements, Description.repeated_append_singleton, List.map_append, ← replacements]
  by_cases hold : t.key ∈ lines.map (·.key)
  · rw [if_pos hold, if_pos (hcontains.mpr hold), Array.toList_push, hevents]
    rfl
  · rw [if_neg hold, if_neg fun h => hold (hcontains.mp h), hevents]
    exact (List.append_nil _).symm

/-- The lines stored so far are what the events told so far are about. -/
theorem Realizes.events_storeLines (hg : Realizes g names lines) (hn : names.Nodup)
    {ts : List TransitionLine} (hevents : events.toList = replacements name lines)
    (hh : ts.foldlM (Program.storeLine name) (g, events) = .ok (h, events')) :
    events'.toList = replacements name (lines ++ ts) :=
  (storeLines_induction
    (P := fun lines b => Realizes b.1 names lines ∧ b.2.toList = replacements name lines)
    (fun _ _ _ _ hb hstore => ⟨hb.1.storeLine hn hstore, hb.1.events_storeLine hb.2 hstore⟩)
    ⟨hg, hevents⟩ hh).2

end Storing

namespace Program

open Description (repeated)

variable {name text : String} {settings : Settings} {d : Description} {blank : Symbol}
  {p : Program} {events : Array Event}

/-! ## Loading -/

/-- Compiling tells of all replaced lines in order, and at last of what was compiled. -/
theorem events_of_compile (hd : d.Checked blank)
    (h : compile name d settings = .ok (p, events)) :
    events.toList =
      replacements name d.transitions ++ [.compiled name p.stateCount p.transitionCount] := by
  unfold compile at h
  simp only [bind_eq_ok_iff] at h
  obtain ⟨⟨graph, events'⟩, hlines, start, -, accept, -, reject, -, heq⟩ := h
  cases heq
  rw [Array.toList_push, (realizes_statesGraph d.states).events_storeLines hd.nodup rfl hlines]
  rfl

/-- Loading tells of the states that cannot be reached, and then what compiling tells. -/
theorem events_of_load (h : load name text settings = .ok (p, events)) :
    ∃ d, Description.parse text = .ok d ∧ d.Checked settings.blank ∧ Means d p.control ∧
      p.Embodies name d settings ∧ events.toList = (unreachableEvents name d).toList ++
        (replacements name d.transitions ++
          [.compiled name p.stateCount p.transitionCount]) := by
  obtain ⟨d, hparse, hd, hm, hp⟩ := exists_description h
  refine ⟨d, hparse, hd, hm, hp, ?_⟩
  unfold load at h
  simp only [bind_eq_ok_iff] at h
  obtain ⟨d', hread, ⟨p', events'⟩, hcompile, heq⟩ := h
  cases heq
  obtain ⟨hparse', -⟩ := readDescription_eq_ok hread
  cases hparse.symm.trans hparse'
  rw [Array.toList_append, events_of_compile hd hcompile]

theorem warnings_of_replacements (name : String) (lines : List TransitionLine) :
    (replacements name lines).filter (·.level = .warn) = replacements name lines := by
  apply List.filter_eq_self.mpr
  intro e he
  obtain ⟨_, -, rfl⟩ := List.mem_map.mp he
  rfl

/-- The last line for a state and a symbol is the one that is found there. -/
theorem answers_of_lastLine (hd : d.Checked blank) (hm : Means d p.control)
    (hp : p.Embodies name d settings) {t : TransitionLine}
    (ht : lastLine d.transitions t.state t.read = some t) : p.Answers t := by
  obtain ⟨hmem, -, -⟩ := Description.mem_of_lastLine ht
  obtain ⟨i, hi⟩ := List.getElem?_of_mem (hd.declared t hmem).1
  have hi : d.stateNames[(⟨i⟩ : StateId).index]? = some t.state := hi
  obtain ⟨x, hx, hwrite, hdir, hnext⟩ := hm.graph.line hi ht
  obtain ⟨q, hq, hentry⟩ := Option.bind_eq_some_iff.mp hx
  refine ⟨⟨i⟩, q, x, (hp.stateId? _ _).mpr hi, Graph.state_eq_ok_iff.mpr hq, ?_, hwrite, hdir,
    (hp.stateId? _ _).mpr hnext⟩
  rw [State.lookup, hentry]

/-- What a load warns of is first of states that cannot be reached, if there are any, and then of
each transition line for whose state and symbol there is an earlier line. There are as many of these
as there are more lines than transitions. Of the lines for a state and a symbol the last is the one
that is found, and if there are others it is one that is told of. -/
theorem warnings_of_load (hload : load name text settings = .ok (p, events)) :
    ∃ d, Description.parse text = .ok d ∧
      events.toList.filter (·.level = .warn) =
        (if d.unreachableStates = [] then [] else [.unreachable name d.unreachableStates]) ++
          (repeated d.transitions).map (fun e => .replaced name e.1.state e.1.read e.1.line) ∧
      (repeated d.transitions).length + p.transitionCount = d.transitions.length ∧
      ∀ i t, d.transitions[i]? = some t → ∃ j u, i ≤ j ∧ d.transitions[j]? = some u ∧
        u.key = t.key ∧ (∀ k v, d.transitions[k]? = some v → v.key = t.key → k ≤ j) ∧
        p.Answers u ∧ (i < j → (u, j) ∈ repeated d.transitions) := by
  obtain ⟨d, hparse, hd, hm, hp, hevents⟩ := events_of_load hload
  refine ⟨d, hparse, ?_, ?_, ?_⟩
  · have hcompiled : [Event.compiled name p.stateCount p.transitionCount].filter
        (·.level = .warn) = [] := rfl
    rw [hevents, List.filter_append, List.filter_append, warnings_of_replacements, hcompiled,
      List.append_nil, unreachableEvents]
    split
    · rfl
    · rfl
  · rw [hp.transitionCount]
    exact Description.length_repeated d.transitions
  · intro i t ht
    -- The last line with the same key is the one that the graph answers with.
    have hkey : t.key ∈ d.transitions.map (·.key) := List.mem_map_of_mem (List.mem_of_getElem? ht)
    obtain ⟨u, hu⟩ := Option.isSome_iff_exists.mp (lastLine_isSome_iff.mpr hkey)
    obtain ⟨j, hj, hlast⟩ := Description.exists_last hu
    obtain ⟨-, hstate, hread⟩ := Description.mem_of_lastLine hu
    have hsame : t.key = u.key := Prod.ext hstate.symm hread.symm
    rw [← hstate, ← hread] at hu
    exact ⟨j, u, hlast i t ht rfl, hj, hsame.symm, hlast, answers_of_lastLine hd hm hp hu,
      fun hij => Description.mem_repeated hij ht hj hsame⟩

/-- Of three lines for `a` and `x` the last one counts. The state `d` cannot be reached. -/
def threeLines : String :=
  "states 4\na\nb +\nc -\nd\nalphabet 2 x y\na x c x L\na x a y R\nd y a y R\na x b x R\n"

theorem warnings_of_load_of_threeLines : ∃ p events, load "marks" threeLines {} = .ok (p, events) ∧
    events.toList.filter (·.level = .warn) = [.unreachable "marks" ["d"],
      .replaced "marks" "a" "x" 8, .replaced "marks" "a" "x" 10] ∧ p.transitionCount = 2 := by
  have hread : (Description.parse threeLines).toOption.map (fun d => (d.unreachableStates,
      replacements "marks" d.transitions, d.transitions.length)) =
      some (["d"], [.replaced "marks" "a" "x" 8, .replaced "marks" "a" "x" 10], 4) := by
    decide +kernel
  have hsome : (load "marks" threeLines {}).toOption.isSome := by decide +kernel
  cases hload : load "marks" threeLines {} with
  | error e =>
    rw [hload] at hsome
    cases hsome
  | ok r =>
    obtain ⟨d, hparse, hwarn, hcount, -⟩ := warnings_of_load hload
    rw [hparse] at hread
    obtain ⟨hstates, hreplaced, hlength⟩ : d.unreachableStates = ["d"] ∧
        replacements "marks" d.transitions =
          [.replaced "marks" "a" "x" 8, .replaced "marks" "a" "x" 10] ∧
        d.transitions.length = 4 := by
      simpa [Except.toOption] using hread
    have hrepeated : (repeated d.transitions).length = 2 := by
      have hlines := congrArg List.length hreplaced
      rwa [replacements, List.length_map] at hlines
    refine ⟨r.1, r.2, rfl, ?_, by omega⟩
    rw [hwarn, ← replacements, hreplaced, hstates]
    rfl

end Program

end SingleTape
