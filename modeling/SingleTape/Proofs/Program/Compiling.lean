import Mathlib.Tactic.ByContra
import SingleTape.Program.Compile
import SingleTape.Proofs.Attempt
import SingleTape.Proofs.Description.Checked
import SingleTape.Proofs.Description.Interpreter
import SingleTape.Proofs.Graph.Closed

/-!
# What a compiled graph says

The graph that transition lines are stored in answers, for every state and symbol, with the last of
the lines for the name of that state. The invariant is kept by storing one more line, so it holds
of all lines together.
-/

namespace SingleTape

open Description (Marker StateLine TransitionLine lastLine lastLine_append_singleton)

/-- The graph has a state for every name, in order, and for each state and symbol the transition
of the last of the lines. -/
structure Realizes (g : Graph) (names : List String) (lines : List TransitionLine) : Prop where
  name : ∀ id, (g.get? id).map (·.name) = names[id.index]?
  line : ∀ {id q s t}, names[id.index]? = some q → lastLine lines q s = some t →
    ∃ x, g.transition? id s = some x ∧ x.write = t.write ∧ x.direction = t.direction ∧
      names[x.target.index]? = some t.next
  noLine : ∀ {id q s}, names[id.index]? = some q → lastLine lines q s = none →
    g.transition? id s = none

variable {g h : Graph} {names : List String} {lines : List TransitionLine}

section States

/-- State lines add their states in order. -/
theorem states_addStates (states : List StateLine) (g : Graph) :
    (states.foldl (fun g s => (g.addState s.name).2) g).states =
      g.states ++ (states.map fun s => ({ name := s.name } : State)).toArray := by
  induction states generalizing g with
  | nil => simp
  | cons s states ih =>
    rw [List.foldl_cons, ih]
    simp [Graph.addState]

/-- A handle finds the state of the line with its number. -/
theorem get?_statesGraph (states : List StateLine) (id : StateId) :
    (Program.statesGraph states).get? id =
      states[id.index]?.map fun s => ({ name := s.name } : State) := by
  rw [Graph.get?, Program.statesGraph, states_addStates]
  simp [show (∅ : Graph).states = #[] from rfl]

/-- Before the first line is stored there are the names and nothing else. -/
theorem realizes_statesGraph (states : List StateLine) :
    Realizes (Program.statesGraph states) (states.map (·.name)) [] where
  name id := by
    rw [get?_statesGraph]
    cases h : states[id.index]? <;> simp [h]
  line := by
    intro id q s t _ h
    cases h
  noLine := by
    intro id q s _ _
    rw [Graph.transition?, get?_statesGraph]
    cases states[id.index]? <;> rfl

end States

section Lines

/-- The handle of a name finds the name. -/
theorem Realizes.get?_of_find? (hg : Realizes g names lines) {q : String} {id : StateId}
    (h : g.find? q = some id) : names[id.index]? = some q := by
  obtain ⟨i, hi, rfl⟩ := Option.map_eq_some_iff.mp h
  obtain ⟨hlt, hq, -⟩ := Array.findIdx?_eq_some_iff_getElem.mp hi
  rw [← hg.name, Graph.get?, Array.getElem?_eq_getElem hlt]
  simpa using hq

/-- With different names a name has one handle. -/
theorem eq_of_nodup (hn : names.Nodup) {q : String} {id id' : StateId}
    (h : names[id.index]? = some q) (h' : names[id'.index]? = some q) : id = id' := by
  obtain ⟨hlt, -⟩ := List.getElem?_eq_some_iff.mp h
  have hidx : id.index = id'.index := (List.getElem?_inj hlt hn).mp (h.trans h'.symm)
  cases id
  cases id'
  cases hidx
  rfl

theorem not_stored {t : TransitionLine} {source id : StateId} {q : String} {s : Symbol}
    (hsource : names[source.index]? = some t.state) (hid : names[id.index]? = some q)
    (hc : ¬ (t.state = q ∧ t.read = s)) : ¬ (id = source ∧ s = t.read) := by
  rintro ⟨rfl, rfl⟩
  rw [hsource] at hid
  exact hc ⟨Option.some.inj hid, rfl⟩

/-- The new line is the last one for its own state and symbol, and changes nothing for others. -/
theorem Realizes.insert (hg : Realizes g names lines) (hn : names.Nodup) {t : TransitionLine}
    {source : StateId} {x : Transition} (hsource : names[source.index]? = some t.state)
    (htarget : names[x.target.index]? = some t.next) (hwrite : x.write = t.write)
    (hdir : x.direction = t.direction) (hh : g.insert source t.read x = .ok h) :
    Realizes h names (lines ++ [t]) where
  name id := by
    rw [← hg.name, Graph.get?_insert hh]
    split
    · cases g.get? id <;> rfl
    · rfl
  line := by
    intro id q s u hid hu
    rw [lastLine_append_singleton] at hu
    rw [Graph.transition?_insert hh]
    -- The new line is the last one for its own state and symbol only.
    by_cases hc : t.state = q ∧ t.read = s
    · rw [if_pos hc] at hu
      cases hu
      obtain ⟨rfl, rfl⟩ := hc
      rw [if_pos ⟨eq_of_nodup hn hid hsource, rfl⟩]
      exact ⟨x, rfl, hwrite, hdir, htarget⟩
    · rw [if_neg hc] at hu
      rw [if_neg (not_stored hsource hid hc)]
      exact hg.line hid hu
  noLine := by
    intro id q s hid hu
    rw [lastLine_append_singleton] at hu
    rw [Graph.transition?_insert hh]
    by_cases hc : t.state = q ∧ t.read = s
    · rw [if_pos hc] at hu
      cases hu
    · rw [if_neg hc] at hu
      rw [if_neg (not_stored hsource hid hc)]
      exact hg.noLine hid hu

/-- The handle of a name is the one that its graph finds. -/
theorem find?_of_handleOf {q : String} {id : StateId} (h : Program.handleOf g q = .ok id) :
    g.find? q = some id := by
  unfold Program.handleOf at h
  split at h
  case h_1 id' hid =>
    cases h
    exact hid
  case h_2 => cases h

/-- Storing a line is an insertion between the states that it names. -/
theorem Realizes.insert_of_storeLine (hg : Realizes g names lines) {name : String}
    {t : TransitionLine} {events events' : Array Event}
    (hh : Program.storeLine name (g, events) t = .ok (h, events')) :
    ∃ source x, names[source.index]? = some t.state ∧ names[x.target.index]? = some t.next ∧
      x.write = t.write ∧ x.direction = t.direction ∧ g.insert source t.read x = .ok h := by
  unfold Program.storeLine at hh
  dsimp only at hh
  simp only [bind_eq_ok_iff, mapError_eq_ok_iff] at hh
  obtain ⟨source, hsource, target, htarget, q, -, g', hconnect, heq⟩ := hh
  cases heq
  obtain ⟨x, rfl, hwrite, hdir, hinsert⟩ := Graph.insert_of_connect hconnect
  exact ⟨source, x, hg.get?_of_find? (find?_of_handleOf hsource),
    hg.get?_of_find? (find?_of_handleOf htarget), hwrite, hdir, hinsert⟩

/-- A stored line is one more that the graph realizes. -/
theorem Realizes.storeLine (hg : Realizes g names lines) (hn : names.Nodup) {name : String}
    {t : TransitionLine} {events events' : Array Event}
    (hh : Program.storeLine name (g, events) t = .ok (h, events')) :
    Realizes h names (lines ++ [t]) := by
  obtain ⟨source, x, hsource, htarget, hwrite, hdir, hinsert⟩ := hg.insert_of_storeLine hh
  exact hg.insert hn hsource htarget hwrite hdir hinsert

/-- What is true of the lines stored so far, and stays true when one more is stored, is true of all.
-/
theorem storeLines_induction {name : String} {P : List TransitionLine → Graph × Array Event → Prop}
    (hstep : ∀ lines t b b', P lines b → Program.storeLine name b t = .ok b' → P (lines ++ [t]) b')
    {ts : List TransitionLine} {b b' : Graph × Array Event} (hb : P lines b)
    (hh : ts.foldlM (Program.storeLine name) b = .ok b') : P (lines ++ ts) b' := by
  induction ts generalizing lines b with
  | nil =>
    cases hh
    rw [List.append_nil]
    exact hb
  | cons t ts ih =>
    rw [List.foldlM_cons, bind_eq_ok_iff] at hh
    obtain ⟨b'', hstore, hrest⟩ := hh
    rw [List.append_cons]
    exact ih (hstep lines t b b'' hb hstore) hrest

/-- Lines stored one after the other are all realized. -/
theorem Realizes.storeLines (hg : Realizes g names lines) (hn : names.Nodup) {name : String}
    {ts : List TransitionLine} {events events' : Array Event}
    (hh : ts.foldlM (Program.storeLine name) (g, events) = .ok (h, events')) :
    Realizes h names (lines ++ ts) :=
  storeLines_induction (P := fun lines b => Realizes b.1 names lines)
    (fun _ _ _ _ hb hstore => hb.storeLine hn hstore) hg hh

end Lines

section Entries

/-- An entry is there because of a line, and does what the line says. -/
theorem Realizes.exists_line (hg : Realizes g names lines) {id : StateId} {q : String} {s : Symbol}
    {x : Transition} (hid : names[id.index]? = some q) (hx : g.transition? id s = some x) :
    ∃ t ∈ lines, t.state = q ∧ t.read = s ∧ x.write = t.write ∧ x.direction = t.direction ∧
      names[x.target.index]? = some t.next := by
  cases hline : lastLine lines q s with
  | none =>
    rw [hg.noLine hid hline] at hx
    cases hx
  | some t =>
    obtain ⟨y, hy, hwrite, hdir, htarget⟩ := hg.line hid hline
    rw [hx] at hy
    cases hy
    obtain ⟨ht, hstate, hread⟩ := Description.mem_of_lastLine hline
    exact ⟨t, ht, hstate, hread, hwrite, hdir, htarget⟩

/-- Where there is no entry there is no line. -/
theorem Realizes.not_line (hg : Realizes g names lines) {id : StateId} {q : String} {s : Symbol}
    (hid : names[id.index]? = some q) (hx : g.transition? id s = none) :
    ∀ t ∈ lines, ¬ (t.state = q ∧ t.read = s) := by
  apply Description.lastLine_eq_none_iff.mp
  cases hline : lastLine lines q s with
  | none => rfl
  | some t =>
    obtain ⟨y, hy, -⟩ := hg.line hid hline
    rw [hx] at hy
    cases hy

theorem Realizes.getElem?_of_get? (hg : Realizes g names lines) {id : StateId} {q : State}
    (hq : g.get? id = some q) : names[id.index]? = some q.name := by
  rw [← hg.name, hq]
  rfl

theorem Realizes.exists_name (hg : Realizes g names lines) {id : StateId} (hid : id ∈ g) :
    ∃ q, names[id.index]? = some q := by
  obtain ⟨q, hq⟩ := Graph.exists_get?_of_mem hid
  exact ⟨q.name, hg.getElem?_of_get? hq⟩

end Entries

section Roles

/-- The control does what the lines of the description say: its graph answers with the last lines,
and the states with a role are those that the lines give it. -/
structure Means (d : Description) (c : Control) : Prop where
  graph : Realizes c.graph d.stateNames d.transitions
  start : d.stateNames[c.start.index]? = some d.startName
  accept : ∀ {id q}, d.stateNames[id.index]? = some q → (id = c.accept ↔ q ∈ d.marked .accept)
  reject : ∀ {id q}, d.stateNames[id.index]? = some q → (id = c.reject ↔ q ∈ d.marked .reject)
  roles : c.start ∈ c.graph ∧ c.accept ∈ c.graph ∧ c.reject ∈ c.graph

/-- The first state with a role is the first line that has it. -/
theorem findIdx?_of_firstState {states : List StateLine} {p : StateLine → Bool} {role : Role}
    {id : StateId} (h : Program.firstState states p role = .ok id) :
    states.findIdx? p = some id.index := by
  unfold Program.firstState at h
  split at h
  case h_1 i hi =>
    cases h
    exact hi
  case h_2 => cases h

theorem Realizes.mem_iff (hg : Realizes g names lines) {id : StateId} :
    id ∈ g ↔ id.index < names.length := by
  rw [← Graph.get?_isSome_iff, ← Option.isSome_map (f := (·.name)), hg.name]
  simp

variable {d : Description} {blank : Symbol}

/-- With one marked line and no name twice, the state that was found is the one with the name. -/
theorem eq_marked_iff (hd : d.stateNames.Nodup) {mark : Marker}
    (hone : (d.marked mark).length = 1) {id' : StateId}
    (hfirst : d.states.findIdx? (·.marker = some mark) = some id'.index) {id : StateId} {q : String}
    (hid : d.stateNames[id.index]? = some q) : id = id' ↔ q ∈ d.marked mark := by
  obtain ⟨hlt, hmark, -⟩ := List.findIdx?_eq_some_iff_getElem.mp hfirst
  have hname : d.stateNames[id'.index]? = some d.states[id'.index].name := by
    simp [Description.stateNames, hlt]
  have hmem : d.states[id'.index].name ∈ d.marked mark :=
    List.mem_map.mpr ⟨_, List.mem_filter.mpr ⟨List.getElem_mem hlt, hmark⟩, rfl⟩
  constructor
  · rintro rfl
    rw [hname] at hid
    cases hid
    exact hmem
  · intro hq
    obtain ⟨a, ha⟩ := List.length_eq_one_iff.mp hone
    rw [ha, List.mem_singleton] at hq hmem
    apply eq_of_nodup hd hid
    rw [hname, hmem, hq]

theorem getElem?_start {id : StateId}
    (hfirst : d.states.findIdx? (fun _ => true) = some id.index) :
    d.stateNames[id.index]? = some d.startName := by
  obtain ⟨hlt, -, hleast⟩ := List.findIdx?_eq_some_iff_getElem.mp hfirst
  have hzero : id.index = 0 := by
    by_contra hne
    exact hleast 0 (Nat.pos_of_ne_zero hne) rfl
  rw [hzero] at hlt ⊢
  rw [Description.startName, Description.stateNames]
  simp [List.head?_eq_getElem?, hlt]

/-- What is compiled has the meaning of its lines. -/
theorem means_of_compile (hd : d.Checked blank) {name : String} {settings : Settings}
    {p : Program} {events : Array Event}
    (h : Program.compile name d settings = .ok (p, events)) :
    Means d p.control ∧ p.settings = settings := by
  unfold Program.compile at h
  simp only [bind_eq_ok_iff] at h
  obtain ⟨⟨graph, events'⟩, hlines, start, hstart, accept, haccept, reject, hreject, heq⟩ := h
  cases heq
  have hgraph : Realizes graph d.stateNames d.transitions :=
    (realizes_statesGraph d.states).storeLines hd.nodup hlines
  -- The handle of a line is that of a state, as there is one state for each line.
  have hmem {id : StateId} {f : StateLine → Bool} (hf : d.states.findIdx? f = some id.index) :
      id ∈ graph := by
    obtain ⟨hlt, -⟩ := List.findIdx?_eq_some_iff_getElem.mp hf
    rw [hgraph.mem_iff, Description.stateNames, List.length_map]
    exact hlt
  have hstart := findIdx?_of_firstState hstart
  have haccept := findIdx?_of_firstState haccept
  have hreject := findIdx?_of_firstState hreject
  refine ⟨⟨hgraph, getElem?_start hstart, ?_, ?_, hmem hstart, hmem haccept, hmem hreject⟩, rfl⟩
  · exact eq_marked_iff hd.nodup hd.accept haccept
  · exact eq_marked_iff hd.nodup hd.reject hreject

end Roles

end SingleTape
