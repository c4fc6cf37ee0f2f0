import Mathlib.Data.Finset.Card
import Mathlib.Data.List.Forall2
import SingleTape.Proofs.Description.Parsing
import SingleTape.Proofs.Graph.Counting
import SingleTape.Proofs.Program.Meaning

/-!
# What loading gives

A text that passes the size limit, the parser and the check compiles, because the check looks at all
that compiling relies on and the format leaves no symbol empty. What comes out is the program that
the lines ask for.
-/

namespace SingleTape

open Description (Marker StateLine TransitionLine lastLine)

/-! ## Storing lines -/

section Storing

variable {g h : Graph} {names : List String} {lines : List TransitionLine} {name : String}

/-- A graph with different names finds each at its place. -/
theorem Realizes.find?_eq_some_iff (hg : Realizes g names lines) (hn : names.Nodup) {q : String}
    {id : StateId} : g.find? q = some id ↔ names[id.index]? = some q := by
  refine ⟨hg.get?_of_find?, fun hid => ?_⟩
  cases hfind : g.find? q with
  | some id' => rw [eq_of_nodup hn (hg.get?_of_find? hfind) hid]
  | none =>
    rw [← hg.name] at hid
    obtain ⟨a, ha, hname⟩ := Option.map_eq_some_iff.mp hid
    have hnone : g.states.findIdx? (fun b => b.name == q) = none := Option.map_eq_none_iff.mp hfind
    rw [Array.findIdx?_eq_none_iff] at hnone
    have hne := hnone a (Array.mem_of_getElem? ha)
    simp [hname] at hne

theorem Realizes.size_eq (hg : Realizes g names lines) : g.size = names.length := by
  have hsize : g.size < g.size ↔ g.size < names.length := hg.mem_iff
  have hlength : names.length < g.size ↔ names.length < names.length := hg.mem_iff
  omega

/-- A declared name has a handle. -/
theorem Realizes.exists_handleOf (hg : Realizes g names lines) (hn : names.Nodup) {q : String}
    (hq : q ∈ names) : ∃ id, Program.handleOf g q = .ok id ∧ id ∈ g := by
  obtain ⟨i, hi⟩ := List.getElem?_of_mem hq
  obtain ⟨hlt, -⟩ := List.getElem?_eq_some_iff.mp hi
  have hfind : g.find? q = some ⟨i⟩ := (hg.find?_eq_some_iff hn).mpr hi
  refine ⟨⟨i⟩, ?_, hg.mem_iff.mpr hlt⟩
  rw [Program.handleOf, hfind]

/-- A line between declared states that writes some text can always be stored. -/
theorem Realizes.exists_storeLine (hg : Realizes g names lines) (hn : names.Nodup)
    {t : TransitionLine} (hstate : t.state ∈ names) (hnext : t.next ∈ names) (hwrite : t.write ≠ "")
    (name : String) (events : Array Event) :
    ∃ h events', Program.storeLine name (g, events) t = .ok (h, events') := by
  obtain ⟨source, hsource, hsourceMem⟩ := hg.exists_handleOf hn hstate
  obtain ⟨target, htarget, htargetMem⟩ := hg.exists_handleOf hn hnext
  obtain ⟨q, hq⟩ := Graph.exists_get?_of_mem hsourceMem
  have hq : g.state source = .ok q := Graph.state_eq_ok_iff.mpr hq
  -- Both ends are states of the graph, and something is written.
  have hconnect : ∃ h, g.connect source t.read target t.write t.direction = .ok h := by
    rw [Graph.connect, Transition.ofParts, dif_neg hwrite]
    dsimp only
    rw [Graph.insert, if_pos htargetMem, if_pos hsourceMem]
    exact ⟨_, rfl⟩
  obtain ⟨h, hconnect⟩ := hconnect
  refine ⟨h, if q.table.contains t.read then
    events.push (.replaced name t.state t.read t.line) else events, ?_⟩
  unfold Program.storeLine
  dsimp only
  simp only [bind_eq_ok_iff, mapError_eq_ok_iff]
  exact ⟨source, hsource, target, htarget, q, hq, h, hconnect, rfl⟩

/-- Lines between declared states can all be stored. -/
theorem Realizes.exists_storeLines (hg : Realizes g names lines) (hn : names.Nodup)
    {ts : List TransitionLine} (hdeclared : ∀ t ∈ ts, t.state ∈ names ∧ t.next ∈ names)
    (hwrite : ∀ t ∈ ts, t.write ≠ "") (name : String) (events : Array Event) :
    ∃ h events', ts.foldlM (Program.storeLine name) (g, events) = .ok (h, events') := by
  induction ts generalizing g lines events with
  | nil => exact ⟨g, events, rfl⟩
  | cons t ts ih =>
    obtain ⟨hstate, hnext⟩ := hdeclared t List.mem_cons_self
    obtain ⟨g', events', hstore⟩ :=
      hg.exists_storeLine hn hstate hnext (hwrite t List.mem_cons_self) name events
    obtain ⟨h, events'', hrest⟩ := ih (hg.storeLine hn hstore)
      (fun u hu => hdeclared u (List.mem_cons_of_mem t hu))
      (fun u hu => hwrite u (List.mem_cons_of_mem t hu)) events'
    refine ⟨h, events'', ?_⟩
    rw [List.foldlM_cons, hstore]
    exact hrest

def Description.TransitionLine.key (t : TransitionLine) : String × Symbol := (t.state, t.read)

/-- The last line for a state and a symbol is the last one with this key. -/
theorem lastLine_eq_getLast?_key (lines : List TransitionLine) (q : String) (s : Symbol) :
    lastLine lines q s = (lines.filter (·.key = (q, s))).getLast? := by
  unfold lastLine
  congr 2
  funext t
  exact decide_eq_decide.mpr (by simp [Description.TransitionLine.key])

theorem lastLine_isSome_iff {q : String} {s : Symbol} :
    (lastLine lines q s).isSome ↔ (q, s) ∈ lines.map (·.key) := by
  rw [lastLine_eq_getLast?_key, List.getLast?_isSome, ne_eq, List.filter_eq_nil_iff]
  simp

/-- There is an entry just if there is a line for it. -/
theorem Realizes.transition?_isSome_iff (hg : Realizes g names lines) {id : StateId} {q : String}
    {s : Symbol} (hid : names[id.index]? = some q) :
    (g.transition? id s).isSome ↔ (q, s) ∈ lines.map (·.key) := by
  rw [← lastLine_isSome_iff]
  cases hline : lastLine lines q s with
  | some u =>
    obtain ⟨y, hy, -⟩ := hg.line hid hline
    rw [hy]
    rfl
  | none =>
    rw [hg.noLine hid hline]
    rfl

theorem card_keys_append_singleton (lines : List TransitionLine) (t : TransitionLine) :
    ((lines ++ [t]).map (·.key)).toFinset.card =
      (lines.map (·.key)).toFinset.card + if t.key ∈ lines.map (·.key) then 0 else 1 := by
  have hkeys : ((lines ++ [t]).map (·.key)).toFinset =
      insert t.key (lines.map (·.key)).toFinset := by
    ext k
    simp
  rw [hkeys]
  split
  · rename_i hold
    rw [Finset.insert_eq_of_mem (List.mem_toFinset.mpr hold), Nat.add_zero]
  · rename_i hnew
    exact Finset.card_insert_of_notMem fun hmem => hnew (List.mem_toFinset.mp hmem)

/-- The graph has been built from these lines: it answers with the last of them, its transitions
lead to states of its own, and there are as many as the lines have keys. -/
structure Stored (g : Graph) (names : List String) (lines : List TransitionLine) : Prop where
  realizes : Realizes g names lines
  closed : g.Closed
  count : g.transitionCount = (lines.map (·.key)).toFinset.card

/-- Before the first line only the states are there. -/
theorem stored_statesGraph (states : List StateLine) :
    Stored (Program.statesGraph states) (states.map (·.name)) [] where
  realizes := realizes_statesGraph states
  closed := by
    intro id s x hx
    rw [Graph.transition?, get?_statesGraph] at hx
    cases hid : states[id.index]? with
    | none =>
      rw [hid] at hx
      cases hx
    | some a =>
      rw [hid] at hx
      cases hx
  count := by
    rw [Graph.transitionCount_eq_sum, Program.statesGraph, states_addStates]
    induction states with
    | nil => rfl
    | cons a states ih => simpa [show (∅ : Table).size = 0 from rfl] using ih

/-- A line adds a transition just if its key is new. -/
theorem Stored.storeLine (hg : Stored g names lines) (hn : names.Nodup) {t : TransitionLine}
    {events events' : Array Event}
    (hh : Program.storeLine name (g, events) t = .ok (h, events')) :
    Stored h names (lines ++ [t]) := by
  obtain ⟨source, x, hsource, -, -, -, hinsert⟩ := hg.realizes.insert_of_storeLine hh
  refine ⟨hg.realizes.storeLine hn hh, hg.closed.insert hinsert, ?_⟩
  rw [Graph.transitionCount_insert hinsert, hg.count, card_keys_append_singleton]
  congr 1
  exact if_congr (hg.realizes.transition?_isSome_iff hsource) rfl rfl

/-- Storing lines keeps graph and lines together. -/
theorem Stored.storeLines (hg : Stored g names lines) (hn : names.Nodup)
    {ts : List TransitionLine} {events events' : Array Event}
    (hh : ts.foldlM (Program.storeLine name) (g, events) = .ok (h, events')) :
    Stored h names (lines ++ ts) :=
  storeLines_induction (P := fun lines b => Stored b.1 names lines)
    (fun _ _ _ _ hb hstore => hb.storeLine hn hstore) hg hh

end Storing

/-! ## Compiling -/

/-- The program is the one that the lines of the description ask for. -/
structure Program.Embodies (p : Program) (name : String) (d : Description) (settings : Settings) :
    Prop where
  name_eq : p.name = name
  settings_eq : p.settings = settings
  nodup : d.stateNames.Nodup
  stateCount : p.stateCount = d.states.length
  stateName : ∀ i, (p.control.graph.get? ⟨i⟩).map (·.name) = d.stateNames[i]?
  stateId? : ∀ q i, p.stateId? q = some ⟨i⟩ ↔ d.stateNames[i]? = some q
  start : p.control.start = ⟨0⟩
  accept : ∀ i, (d.states[i]?.bind (·.marker) = some .accept ↔ p.control.accept = ⟨i⟩)
  reject : ∀ i, (d.states[i]?.bind (·.marker) = some .reject ↔ p.control.reject = ⟨i⟩)
  accept_ne_reject : p.control.accept ≠ p.control.reject
  closed : p.control.graph.Closed
  transitionCount : p.transitionCount = (d.transitions.map (·.key)).toFinset.card
  alphabet : (settings.blank ∈ d.alphabet ∧ p.alphabet = d.alphabet) ∨
    (settings.blank ∉ d.alphabet ∧ p.alphabet = d.alphabet ++ [settings.blank])

section Compiling

variable {d : Description} {blank : Symbol} {name : String} {settings : Settings} {p : Program}
  {events : Array Event}

/-- A role that a state has is found. -/
theorem exists_firstState {states : List StateLine} {f : StateLine → Bool}
    (h : ∃ s ∈ states, f s = true) (role : Role) :
    ∃ id, Program.firstState states f role = .ok id := by
  rw [Program.firstState]
  cases hidx : states.findIdx? f with
  | some i => exact ⟨⟨i⟩, rfl⟩
  | none =>
    obtain ⟨s, hs, hfs⟩ := h
    have := List.findIdx?_eq_none_iff.mp hidx s hs
    rw [hfs] at this
    cases this

/-- The first state of all has handle 0. -/
theorem start_eq_of_firstState {states : List StateLine} {role : Role} {id : StateId}
    (h : Program.firstState states (fun _ => true) role = .ok id) : id = ⟨0⟩ := by
  have hidx := findIdx?_of_firstState h
  cases states with
  | nil => cases hidx
  | cons s states =>
    rw [List.findIdx?_cons, if_pos rfl] at hidx
    cases id
    cases hidx
    rfl

theorem exists_marked {mark : Marker} (hone : (d.marked mark).length = 1) :
    ∃ s ∈ d.states, decide (s.marker = some mark) = true := by
  obtain ⟨q, hq⟩ := List.length_eq_one_iff.mp hone
  have hmem : q ∈ d.marked mark := by
    rw [hq]
    exact List.mem_singleton_self q
  obtain ⟨s, hs, -⟩ := List.mem_map.mp hmem
  obtain ⟨hs, hmark⟩ := List.mem_filter.mp hs
  exact ⟨s, hs, hmark⟩

/-- Nothing that compiling could stumble over is left in a checked description without empty
symbols. -/
theorem exists_compile (hd : d.Checked blank) (hwrite : ∀ t ∈ d.transitions, t.write ≠ "")
    (name : String) (settings : Settings) :
    ∃ p events, Program.compile name d settings = .ok (p, events) := by
  obtain ⟨graph, events, hlines⟩ := (realizes_statesGraph d.states).exists_storeLines hd.nodup
    hd.declared hwrite name #[]
  obtain ⟨s, hs⟩ := List.exists_mem_of_ne_nil d.states hd.states
  have hany : ∃ s ∈ d.states, (fun _ : Description.StateLine => true) s = true := ⟨s, hs, rfl⟩
  obtain ⟨start, hstart⟩ := exists_firstState hany .start
  obtain ⟨accept, haccept⟩ := exists_firstState (exists_marked hd.accept) .accept
  obtain ⟨reject, hreject⟩ := exists_firstState (exists_marked hd.reject) .reject
  unfold Program.compile
  rw [hlines, hstart, haccept, hreject]
  exact ⟨_, _, rfl⟩

/-- The one marked line, by its position. -/
theorem marker_eq_iff (hd : d.Checked blank) {mark : Marker}
    (hone : (d.marked mark).length = 1) {id : StateId}
    (hfirst : d.states.findIdx? (·.marker = some mark) = some id.index) (i : Nat) :
    d.states[i]?.bind (·.marker) = some mark ↔ id = ⟨i⟩ := by
  constructor
  · intro hmark
    obtain ⟨s, hs, hsmark⟩ := Option.bind_eq_some_iff.mp hmark
    have hname : d.stateNames[(⟨i⟩ : StateId).index]? = some s.name := by
      rw [Description.stateNames, List.getElem?_map, hs]
      rfl
    have hmem : s.name ∈ d.marked mark :=
      List.mem_map.mpr
        ⟨s, List.mem_filter.mpr ⟨List.mem_of_getElem? hs, by simpa using hsmark⟩, rfl⟩
    exact ((eq_marked_iff hd.nodup hone hfirst hname).mpr hmem).symm
  · rintro rfl
    obtain ⟨hlt, hmark, -⟩ := List.findIdx?_eq_some_iff_getElem.mp hfirst
    rw [List.getElem?_eq_getElem hlt]
    simpa using hmark

/-- What is compiled embodies its description. -/
theorem embodies_of_compile (hd : d.Checked blank)
    (h : Program.compile name d settings = .ok (p, events)) : p.Embodies name d settings := by
  unfold Program.compile at h
  simp only [bind_eq_ok_iff] at h
  obtain ⟨⟨graph, events'⟩, hlines, start, hstart, accept, haccept, reject, hreject, heq⟩ := h
  cases heq
  have hgraph : Stored graph d.stateNames d.transitions :=
    (stored_statesGraph d.states).storeLines hd.nodup hlines
  -- One state has each marker, so its handle is the one with the role.
  have haccept := marker_eq_iff hd hd.accept (findIdx?_of_firstState haccept)
  have hreject := marker_eq_iff hd hd.reject (findIdx?_of_firstState hreject)
  refine ⟨rfl, rfl, hd.nodup, ?_, fun i => hgraph.realizes.name ⟨i⟩,
    fun q i => hgraph.realizes.find?_eq_some_iff hd.nodup, ?_, haccept, hreject, ?_, hgraph.closed,
    hgraph.count, ?_⟩
  · show graph.size = _
    rw [hgraph.realizes.size_eq, Description.stateNames, List.length_map]
  · exact start_eq_of_firstState hstart
  -- A state has one marker at most.
  · intro heq
    have hmark := (haccept accept.index).mpr rfl
    rw [(hreject accept.index).mpr (Eq.symm heq)] at hmark
    cases hmark
  · show (_ ∧ Program.fullAlphabet d settings.blank = _) ∨ _
    unfold Program.fullAlphabet
    split
    · exact .inl ⟨‹_›, rfl⟩
    · exact .inr ⟨‹_›, rfl⟩

end Compiling

/-! ## Loading -/

namespace Description

/-- No word is empty. -/
theorem ne_empty_of_mem_words {chars : List Char} {s : String} (h : s.toList ∈ words chars) :
    s ≠ "" := by
  have hne : s.toList ≠ [] := by simpa using (List.mem_filter.mp h).2
  rintro rfl
  exact hne rfl

/-- A symbol is a word of its line, and no word is empty. -/
theorem IsTransition.write_ne_empty {l : Line} {t : TransitionLine} (h : IsTransition l t) :
    t.write ≠ "" := by
  obtain ⟨c, -, hwords⟩ := h.words
  have hmem : t.write.toList ∈ Description.words l.chars := by
    rw [hwords]
    simp
  exact ne_empty_of_mem_words hmem

theorem IsAlphabet.ne_empty {l : Line} {n : Nat} {symbols : List Symbol}
    (h : IsAlphabet l n symbols) : ∀ s ∈ symbols, s ≠ "" := by
  obtain ⟨w, digits, hwords, -, -⟩ := h.words
  intro s hs
  have hmem : s.toList ∈ Description.words l.chars := by
    rw [hwords]
    exact List.mem_cons_of_mem _ (List.mem_cons_of_mem _ (List.mem_map_of_mem hs))
  exact ne_empty_of_mem_words hmem

/-- No line of a text writes an empty symbol. -/
theorem write_ne_empty_of_parse {text : String} {d : Description} (h : parse text = .ok d) :
    ∀ t ∈ d.transitions, t.write ≠ "" := by
  obtain ⟨x, f, hx, hfills⟩ := ofChars_eq_ok_iff.mp h
  obtain ⟨_, _, _, transitions, -, -, -, -, hall⟩ := (hx.describes hfills).lines
  intro t ht
  obtain ⟨i, hi, rfl⟩ := List.mem_iff_getElem.mp ht
  exact (hall.get (by rw [hall.length_eq]; exact hi) hi).write_ne_empty

theorem ne_empty_of_parse {text : String} {d : Description} (h : parse text = .ok d) :
    ∀ s ∈ d.alphabet, s ≠ "" := by
  obtain ⟨x, f, hx, hfills⟩ := ofChars_eq_ok_iff.mp h
  obtain ⟨_, _, alphabet, _, -, -, -, halphabet, -⟩ := (hx.describes hfills).lines
  exact halphabet.ne_empty

end Description

namespace Program

variable {name text : String} {settings : Settings} {d : Description} {p : Program}
  {events : Array Event}

/-- The three roles are states of the graph. -/
theorem Embodies.roles (hp : p.Embodies name d settings) : p.control.accept ∈ p.control.graph ∧
    p.control.reject ∈ p.control.graph ∧ p.control.start ∈ p.control.graph := by
  have hmarked {mark : Marker} {id : StateId}
      (h : d.states[id.index]?.bind (·.marker) = some mark) : id.index < p.control.graph.size := by
    obtain ⟨s, hs, -⟩ := Option.bind_eq_some_iff.mp h
    obtain ⟨hlt, -⟩ := List.getElem?_eq_some_iff.mp hs
    rw [show p.control.graph.size = d.states.length from hp.stateCount]
    exact hlt
  have haccept := hmarked ((hp.accept p.control.accept.index).mpr rfl)
  have hreject := hmarked ((hp.reject p.control.reject.index).mpr rfl)
  refine ⟨haccept, hreject, ?_⟩
  rw [hp.start]
  exact Nat.lt_of_le_of_lt (Nat.zero_le _) haccept

/-- With all three states in place only the settings can be a reason not to have a machine. -/
theorem Embodies.machine_eq_ok_iff (hp : p.Embodies name d settings) {m : Machine} :
    p.machine = .ok m ↔ settings.blank ≠ "" ∧ settings.budget ≤ 2 ^ 63 - 1 ∧
      m = Machine.fresh p.control settings #[] := by
  have hlimit : Settings.budgetLimit = 2 ^ 63 := rfl
  rw [machine, Machine.create_eq_ok_iff, Control.check_eq_ok_iff, Settings.check_eq_ok_iff,
    hp.settings_eq, Machine.checkContent_eq_ok_iff]
  constructor
  · rintro ⟨-, ⟨hblank, hbudget⟩, -, hm⟩
    exact ⟨hblank, by omega, hm⟩
  · rintro ⟨hblank, hbudget, hm⟩
    exact ⟨hp.roles, ⟨hblank, by omega⟩, by simp, hm⟩

/-- The alphabet of a program is that of its description, with the empty symbol. -/
theorem Embodies.mem_alphabet_iff (hp : p.Embodies name d settings) {s : Symbol} :
    s ∈ p.alphabet ↔ s ∈ settings.blank :: d.alphabet := by
  rcases hp.alphabet with ⟨hblank, heq⟩ | ⟨-, heq⟩
  · rw [heq, List.mem_cons]
    constructor
    · exact .inr
    · rintro (rfl | hs)
      · exact hblank
      · exact hs
  · rw [heq, List.mem_append, List.mem_singleton, List.mem_cons, or_comm]

theorem readDescription_eq_ok_of_check {blank : Symbol}
    (hsize : text.utf8ByteSize ≤ ProgramError.sizeLimit) (hparse : Description.parse text = .ok d)
    (hcheck : d.check blank = .ok ()) : readDescription text blank = .ok d := by
  unfold readDescription
  rw [if_neg (Nat.not_lt.mpr hsize), hparse]
  show ((d.check blank).mapError _ >>= _) = _
  rw [hcheck]
  rfl

/-- A text that is small enough, can be read and passes the check is loaded. -/
theorem exists_load (hsize : text.utf8ByteSize ≤ ProgramError.sizeLimit)
    (hparse : Description.parse text = .ok d) (hcheck : d.check settings.blank = .ok ())
    (name : String) :
    ∃ p events, load name text settings = .ok (p, events) ∧ p.Embodies name d settings := by
  have hchecked := Description.check_eq_ok_iff.mp hcheck
  obtain ⟨p, events, hcompile⟩ := exists_compile hchecked
    (Description.write_ne_empty_of_parse hparse) name settings
  refine ⟨p, unreachableEvents name d ++ events, ?_, embodies_of_compile hchecked hcompile⟩
  unfold load
  rw [readDescription_eq_ok_of_check hsize hparse hcheck]
  show (compile name d settings >>= _) = _
  rw [hcompile]
  rfl

/-- Where no description is read nothing is loaded, for the same reason. -/
theorem load_of_readDescription_eq_error {e : ProgramError}
    (h : readDescription text settings.blank = .error e) (name : String) :
    load name text settings = .error e := by
  unfold load
  rw [h]
  rfl

/-- A text that is too large is refused before it is looked at. -/
theorem load_of_tooLarge (hsize : ProgramError.sizeLimit < text.utf8ByteSize) (name : String) :
    load name text settings = .error (.tooLarge text.utf8ByteSize) := by
  apply load_of_readDescription_eq_error
  unfold readDescription
  rw [if_pos hsize]
  rfl

/-- A text that cannot be read is refused as malformed. -/
theorem load_of_parse_eq_error (hsize : text.utf8ByteSize ≤ ProgramError.sizeLimit)
    {e : Description.ParseError} (hparse : Description.parse text = .error e) (name : String) :
    load name text settings = .error (.malformed e) := by
  apply load_of_readDescription_eq_error
  unfold readDescription
  rw [if_neg (Nat.not_lt.mpr hsize), hparse]
  rfl

theorem load_of_check_eq_error (hsize : text.utf8ByteSize ≤ ProgramError.sizeLimit)
    (hparse : Description.parse text = .ok d) {v : Description.Violation}
    (hcheck : d.check settings.blank = .error v) (name : String) :
    load name text settings = .error (.violation v) := by
  apply load_of_readDescription_eq_error
  unfold readDescription
  rw [if_neg (Nat.not_lt.mpr hsize), hparse]
  show ((d.check settings.blank).mapError _ >>= _) = _
  rw [hcheck]
  rfl

/-- Only what has passed all three hurdles is loaded. -/
theorem check_of_load (h : load name text settings = .ok (p, events)) :
    text.utf8ByteSize ≤ ProgramError.sizeLimit ∧
      ∃ d, Description.parse text = .ok d ∧ d.check settings.blank = .ok () := by
  have hsize : text.utf8ByteSize ≤ ProgramError.sizeLimit := by
    by_contra hgt
    rw [load_of_tooLarge (Nat.lt_of_not_le hgt)] at h
    cases h
  cases hparse : Description.parse text with
  | error e =>
    rw [load_of_parse_eq_error hsize hparse] at h
    cases h
  | ok d =>
    cases hcheck : d.check settings.blank with
    | error v =>
      rw [load_of_check_eq_error hsize hparse hcheck] at h
      cases h
    | ok u => exact ⟨hsize, d, rfl, hcheck⟩

/-- What is loaded embodies the description that its text is read to. -/
theorem embodies_of_load (h : load name text settings = .ok (p, events)) :
    ∃ d, Description.parse text = .ok d ∧ p.Embodies name d settings := by
  obtain ⟨hsize, d, hparse, hcheck⟩ := check_of_load h
  obtain ⟨p', events', hload, hp⟩ := exists_load hsize hparse hcheck name
  rw [h] at hload
  cases hload
  exact ⟨d, hparse, hp⟩

/-- Where there is a program there is a description behind it, with all that is known of the two. -/
theorem exists_description (h : load name text settings = .ok (p, events)) :
    ∃ d, Description.parse text = .ok d ∧ d.Checked settings.blank ∧ Means d p.control ∧
      p.Embodies name d settings := by
  obtain ⟨-, d, hparse, hcheck⟩ := check_of_load h
  obtain ⟨d₁, hparse₁, hmeans, -⟩ := means_of_load h
  obtain ⟨d₂, hparse₂, hp⟩ := embodies_of_load h
  rw [hparse] at hparse₁ hparse₂
  cases hparse₁
  cases hparse₂
  exact ⟨d, hparse, Description.check_eq_ok_iff.mp hcheck, hmeans, hp⟩

/-- A text gives a program just if it is small enough, has the format, and its lines fit together.
Otherwise the first of the three that fails is told. The program is the one that the lines ask for,
and has a machine just if its settings can be used. -/
theorem load_outcome (name text : String) (settings : Settings) :
    ((∃ p events, load name text settings = .ok (p, events)) ↔ text.utf8ByteSize ≤ 65536 ∧
      ∃ d, Description.parse text = .ok d ∧ d.check settings.blank = .ok ()) ∧
    (65536 < text.utf8ByteSize →
      load name text settings = .error (.tooLarge text.utf8ByteSize)) ∧
    (text.utf8ByteSize ≤ 65536 → ∀ e, Description.parse text = .error e →
      load name text settings = .error (.malformed e)) ∧
    (text.utf8ByteSize ≤ 65536 → ∀ d, Description.parse text = .ok d →
      (∀ v, d.check settings.blank = .error v →
        load name text settings = .error (.violation v)) ∧
      (d.check settings.blank = .ok () → ∃ p events,
        load name text settings = .ok (p, events) ∧ p.Embodies name d settings ∧
        ((∃ m, p.machine = .ok m) ↔ settings.blank ≠ "" ∧ settings.budget ≤ 2 ^ 63 - 1))) := by
  -- The three hurdles are taken in order: the size, the format, and the check.
  refine ⟨⟨?_, ?_⟩, fun hsize => load_of_tooLarge hsize name,
    fun hsize e hparse => load_of_parse_eq_error hsize hparse name,
    fun hsize d hparse => ⟨fun v hcheck => load_of_check_eq_error hsize hparse hcheck name, ?_⟩⟩
  · rintro ⟨p, events, hload⟩
    exact check_of_load hload
  · rintro ⟨hsize, d, hparse, hcheck⟩
    obtain ⟨p, events, hload, -⟩ := exists_load hsize hparse hcheck name
    exact ⟨p, events, hload⟩
  · intro hcheck
    obtain ⟨p, events, hload, hp⟩ := exists_load hsize hparse hcheck name
    refine ⟨p, events, hload, hp, ?_, ?_⟩
    · rintro ⟨m, hm⟩
      obtain ⟨hblank, hbudget, -⟩ := hp.machine_eq_ok_iff.mp hm
      exact ⟨hblank, hbudget⟩
    · rintro ⟨hblank, hbudget⟩
      exact ⟨_, hp.machine_eq_ok_iff.mpr ⟨hblank, hbudget, rfl⟩⟩

/-- Of the three transition lines two are for the same state and symbol. -/
theorem load_outcome_of_twoLines : ∃ d p events, Description.parse twoLines = .ok d ∧
    load "marks" twoLines {} = .ok (p, events) ∧ p.Embodies "marks" d {} ∧
    d.transitions.length = 3 ∧ p.transitionCount = 2 ∧ ∃ m, p.machine = .ok m := by
  have hread : ∃ d, Description.parse twoLines = .ok d ∧ d.check "_" = .ok () ∧
      d.transitions.length = 3 ∧ (d.transitions.map (·.key)).toFinset.card = 2 := by
    have hall : (Description.parse twoLines).toOption.any (fun d => (d.check "_").toOption.isSome ∧
        d.transitions.length = 3 ∧ (d.transitions.map (·.key)).toFinset.card = 2) = true := by
      decide +kernel
    cases hparse : Description.parse twoLines with
    | error e =>
      rw [hparse] at hall
      cases hall
    | ok d =>
      rw [hparse] at hall
      obtain ⟨hcheck, hlength, hcard⟩ := of_decide_eq_true hall
      refine ⟨d, rfl, ?_, hlength, hcard⟩
      cases hd : d.check "_" with
      | error v =>
        rw [hd] at hcheck
        cases hcheck
      | ok u => rfl
  obtain ⟨d, hparse, hcheck, hlength, hcard⟩ := hread
  obtain ⟨-, -, -, hok⟩ := load_outcome "marks" twoLines {}
  obtain ⟨p, events, hload, hp, hmachine⟩ := (hok (by decide +kernel) d hparse).2 hcheck
  exact ⟨d, p, events, hparse, hload, hp, hlength, hp.transitionCount.trans hcard,
    hmachine.mpr (by decide)⟩

end Program

end SingleTape
