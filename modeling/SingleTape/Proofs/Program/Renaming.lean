import SingleTape.Proofs.Machine.Renaming
import SingleTape.Proofs.Program.Loading

/-!
# Names and symbols are tokens

A description with other names for its states and other symbols is checked alike, compiled to a
program with the same handles, and its machines run alike. All that matters is that different names
and symbols stay different and that no symbol becomes the empty text.
-/

namespace SingleTape

open Description (Marker StateLine TransitionLine lastLine)

/-! ## Controls of corresponding descriptions -/

namespace Description

def StateLine.rename (f : String → String) (s : StateLine) : StateLine :=
  { s with name := f s.name }

def TransitionLine.rename (f : String → String) (g : Symbol → Symbol) (t : TransitionLine) :
    TransitionLine :=
  { t with state := f t.state, read := g t.read, next := f t.next, write := g t.write }

end Description

/-- Descriptions whose last lines, markers and first states correspond have controls that do. -/
theorem Means.corresponds {d d' : Description} {c c' : Control} {r : Renaming} (hc : Means d c)
    (hc' : Means d' c') (hd' : d'.stateNames.Nodup)
    (hname : ∀ {id q}, d.stateNames[id.index]? = some q →
      d'.stateNames[(r.handle id).index]? = some (r.name q))
    (hline : ∀ q s, lastLine d'.transitions (r.name q) (r.symbol s) =
      (lastLine d.transitions q s).map (·.rename r.name r.symbol))
    (hstart : d'.startName = r.name d.startName)
    (hmarked : ∀ m q, r.name q ∈ d'.marked m ↔ q ∈ d.marked m) : c.Corresponds r c' where
  name := by
    intro id q hq
    rw [hc'.graph.name]
    exact hname (hc.graph.getElem?_of_get? hq)
  rules := by
    intro id hid s
    obtain ⟨q, hq⟩ := hc.graph.exists_name hid
    have hline' := hline q s
    unfold Graph.rules
    -- Without a last line neither graph has an entry; with one both have its entry.
    cases hlast : lastLine d.transitions q s with
    | none =>
      rw [hlast] at hline'
      rw [hc.graph.noLine hq hlast, hc'.graph.noLine (hname hq) hline']
      rfl
    | some t =>
      rw [hlast] at hline'
      obtain ⟨x, hx, hwrite, hdir, htarget⟩ := hc.graph.line hq hlast
      obtain ⟨y, hy, hwrite', hdir', htarget'⟩ := hc'.graph.line (hname hq) hline'
      rw [hx, hy, Option.map_some, Option.map_some, Option.map_some, hwrite', hdir',
        eq_of_nodup hd' htarget' (hname htarget), Renaming.rule, hwrite, hdir]
      rfl
  start := eq_of_nodup hd' hc'.start (hstart ▸ hname hc.start)
  accept := by
    intro id hid
    obtain ⟨q, hq⟩ := hc.graph.exists_name hid
    rw [hc'.accept (hname hq), hc.accept hq, hmarked]
  reject := by
    intro id hid
    obtain ⟨q, hq⟩ := hc.graph.exists_name hid
    rw [hc'.reject (hname hq), hc.reject hq, hmarked]

/-! ## Renamed descriptions -/

namespace Description

def rename (f : String → String) (g : Symbol → Symbol) (d : Description) : Description :=
  { d with
    states := d.states.map (·.rename f)
    alphabet := d.alphabet.map g
    transitions := d.transitions.map (·.rename f g) }

variable {f : String → String} {g : Symbol → Symbol} {d : Description} {blank : Symbol}

theorem stateNames_rename : (d.rename f g).stateNames = d.stateNames.map f := by
  simp [stateNames, rename, StateLine.rename, Function.comp_def]

theorem marked_rename (m : Marker) : (d.rename f g).marked m = (d.marked m).map f := by
  simp [marked, rename, StateLine.rename, List.filter_map, Function.comp_def]

theorem startName_rename (hd : d.states ≠ []) : (d.rename f g).startName = f d.startName := by
  obtain ⟨s, states, hs⟩ := List.exists_cons_of_ne_nil hd
  rw [startName, startName, stateNames_rename, stateNames, hs]
  rfl

theorem lastLine_rename (hf : Function.Injective f) (hg : Function.Injective g)
    (lines : List TransitionLine) (q : String) (s : Symbol) :
    lastLine (lines.map (·.rename f g)) (f q) (g s) =
      (lastLine lines q s).map (·.rename f g) := by
  unfold lastLine
  rw [List.filter_map, List.getLast?_map]
  congr 3
  funext t
  exact decide_eq_decide.mpr (and_congr hf.eq_iff hg.eq_iff)

/-- Names can be changed without breaking a requirement, as long as they stay different. -/
theorem Checked.rename (hd : d.Checked blank) (hf : Function.Injective f) :
    (d.rename f g).Checked (g blank) where
  stateCount := by
    rw [← show d.states.length = (d.rename f g).declaredStates from hd.stateCount]
    exact List.length_map _
  states := by simpa [Description.rename] using hd.states
  nodup := by
    rw [stateNames_rename]
    exact hd.nodup.map hf
  accept := by rw [marked_rename, List.length_map, hd.accept]
  reject := by rw [marked_rename, List.length_map, hd.reject]
  alphabetSize := by
    rw [← show d.alphabet.length = (d.rename f g).declaredAlphabet from hd.alphabetSize]
    exact List.length_map _
  -- Lines are renamed with the names that they have to use.
  declared := by
    intro u hu
    obtain ⟨t, ht, rfl⟩ := List.mem_map.mp hu
    rw [stateNames_rename]
    exact ⟨List.mem_map_of_mem (hd.declared t ht).1, List.mem_map_of_mem (hd.declared t ht).2⟩
  known := by
    intro u hu
    obtain ⟨t, ht, rfl⟩ := List.mem_map.mp hu
    show g t.read ∈ (blank :: d.alphabet).map g ∧ g t.write ∈ (blank :: d.alphabet).map g
    exact ⟨List.mem_map_of_mem (hd.known t ht).1, List.mem_map_of_mem (hd.known t ht).2⟩

theorem write_ne_empty_rename (hg : ∀ s, s ≠ "" → g s ≠ "")
    (hd : ∀ t ∈ d.transitions, t.write ≠ "") : ∀ t ∈ (d.rename f g).transitions, t.write ≠ "" := by
  intro u hu
  obtain ⟨t, ht, rfl⟩ := List.mem_map.mp hu
  exact hg t.write (hd t ht)

theorem card_keys_rename (hf : Function.Injective f) (hg : Function.Injective g) :
    ((d.rename f g).transitions.map (·.key)).toFinset.card =
      (d.transitions.map (·.key)).toFinset.card := by
  have hkeys : ((d.rename f g).transitions.map (·.key)).toFinset =
      (d.transitions.map (·.key)).toFinset.image (Prod.map f g) := by
    ext k
    simp [rename, TransitionLine.rename, TransitionLine.key]
  rw [hkeys, Finset.card_image_of_injective _ (hf.prodMap hg)]

end Description

def Settings.rename (g : Symbol → Symbol) (settings : Settings) : Settings :=
  { settings with blank := g settings.blank }

/-- A run of the second machine is a run of the first with other names and symbols. -/
structure Machine.RunsLike (f : String → String) (g : Symbol → Symbol) (m m' : Machine) : Prop where
  outcome : ∀ o, m'.run.1 = .ok o ↔ m.run.1 = .ok o
  undefined : ∀ q s, m'.run.1 = .error (.undefinedTransition (f q) (g s)) ↔
    m.run.1 = .error (.undefinedTransition q s)
  steps : m'.run.2.steps = m.run.2.steps
  remaining : m'.run.2.remaining = m.run.2.remaining
  state : m'.run.2.state = m.run.2.state
  head : m'.run.2.tape.head = m.run.2.tape.head
  cells : m'.run.2.tape.cells = m.run.2.tape.cells.map g

/-- The second program has the states and the transitions of the first, with other names and
symbols. -/
structure Program.ShapedLike (g : Symbol → Symbol) (p p' : Program) : Prop where
  stateCount : p'.stateCount = p.stateCount
  start : p'.control.start = p.control.start
  accept : p'.control.accept = p.control.accept
  reject : p'.control.reject = p.control.reject
  transitionCount : p'.transitionCount = p.transitionCount
  alphabet : p'.alphabet = p.alphabet.map g

/-- Machines that mirror each other run alike, under the other names. -/
theorem Machine.Mirrors.runsLike {f : String → String} {g : Symbol → Symbol}
    (hf : Function.Injective f) (hg : Function.Injective g) {m m' : Machine}
    (h : m.Mirrors ⟨id, f, g⟩ m') : m.RunsLike f g m' := by
  obtain ⟨hanswer, hlast⟩ := h.run
  refine ⟨fun o => ?_, fun q s => ?_, hlast.steps, hlast.remaining, hlast.state, ?_, ?_⟩
  · rw [hanswer, mapError_eq_ok_iff]
  · rw [hanswer]
    cases m.run.1 with
    | ok o => simp [Except.mapError]
    | error fault =>
      cases fault with
      | undefinedTransition q' s' =>
        simp [Except.mapError, Renaming.fault, hf.eq_iff, hg.eq_iff]
      | _ => simp [Except.mapError, Renaming.fault]
  · rw [hlast.tape, Tape.head_map]
  · rw [hlast.tape, Tape.cells_map]

namespace Program

variable {name name' text : String} {settings settings' : Settings} {d d' : Description}
  {p p' : Program} {f : String → String} {g : Symbol → Symbol}

/-- A budget that cannot be counted down is refused when the machine is made. -/
theorem Embodies.machine_eq_error (hp : p.Embodies name d settings) (hblank : settings.blank ≠ "")
    (hbudget : 2 ^ 63 - 1 < settings.budget) :
    p.machine = .error (.budgetTooLarge settings.budget) := by
  have hlimit : Settings.budgetLimit = 2 ^ 63 := rfl
  have hcheck : settings.check = .error (.budgetTooLarge settings.budget) := by
    unfold Settings.check
    rw [if_neg hblank, if_neg (by omega)]
  rw [machine, Machine.create, hp.settings_eq, Control.check_eq_ok_iff.mpr hp.roles, hcheck]
  rfl

/-- Handles count lines, so they are the same in both programs. -/
theorem corresponds_of_rename (hf : Function.Injective f) (hg : Function.Injective g)
    (hd : d.Checked settings.blank) (hmeans : Means d p.control)
    (hmeans' : Means (d.rename f g) p'.control) :
    p.control.Corresponds ⟨id, f, g⟩ p'.control := by
  refine hmeans.corresponds hmeans' (hd.rename (g := g) hf).nodup ?_ ?_ ?_ ?_
  · intro id q hq
    rw [Description.stateNames_rename, List.getElem?_map]
    exact Option.map_eq_some_iff.mpr ⟨q, hq, rfl⟩
  · exact Description.lastLine_rename hf hg d.transitions
  · exact Description.startName_rename hd.states
  · intro m q
    rw [Description.marked_rename]
    exact List.mem_map_of_injective hf

theorem shapedLike_of_rename (hf : Function.Injective f) (hg : Function.Injective g)
    (hp : p.Embodies name d settings) (hp' : p'.Embodies name' (d.rename f g) (settings.rename g))
    (h : p.control.Corresponds ⟨id, f, g⟩ p'.control) : p.ShapedLike g p' where
  stateCount := by
    rw [hp.stateCount, hp'.stateCount]
    exact List.length_map _
  start := h.start
  accept := ((h.accept _ hp.roles.1).mpr rfl).symm
  reject := ((h.reject _ hp.roles.2.1).mpr rfl).symm
  transitionCount := by
    rw [hp.transitionCount, hp'.transitionCount, Description.card_keys_rename hf hg]
  alphabet := by
    have hmem : (settings.rename g).blank ∈ (d.rename f g).alphabet ↔ settings.blank ∈ d.alphabet :=
      List.mem_map_of_injective hg
    -- The blank is added to both alphabets or to none.
    rcases hp.alphabet with ⟨hblank, heq⟩ | ⟨hblank, heq⟩
    · rcases hp'.alphabet with ⟨-, heq'⟩ | ⟨hblank', -⟩
      · rw [heq', heq]
        rfl
      · exact absurd (hmem.mpr hblank) hblank'
    · rcases hp'.alphabet with ⟨hblank', -⟩ | ⟨-, heq'⟩
      · exact absurd (hmem.mp hblank') hblank
      · rw [heq', heq, List.map_append]
        rfl

/-- States and symbols are tokens. With other names for the states and other symbols, different ones
staying different, a description passes the check and gives a program of the same shape, with runs
that differ in the names and symbols only. -/
theorem renamed_runs_alike (hparse : Description.parse text = .ok d) (hblank : settings.blank ≠ "")
    (hcheck : d.check settings.blank = .ok ()) (hf : Function.Injective f)
    (hg : Function.Injective g) (hne : ∀ s, s ≠ "" → g s ≠ "") (name : String) :
    (d.rename f g).check (g settings.blank) = .ok () ∧
    ∃ p events p' events', compile name d settings = .ok (p, events) ∧
      compile name (d.rename f g) (settings.rename g) = .ok (p', events') ∧
      p.ShapedLike g p' ∧
      (settings.budget ≤ 2 ^ 63 - 1 → ∀ content, (∀ s ∈ content, s ≠ "") →
        ∃ m₀ m m₀' m', p.machine = .ok m₀ ∧ m₀.reset content = .ok m ∧
          p'.machine = .ok m₀' ∧ m₀'.reset (content.map g) = .ok m' ∧ m.RunsLike f g m') ∧
      (2 ^ 63 - 1 < settings.budget → p.machine = .error (.budgetTooLarge settings.budget) ∧
        p'.machine = .error (.budgetTooLarge settings.budget)) := by
  have hd := Description.check_eq_ok_iff.mp hcheck
  have hd' : (d.rename f g).Checked (settings.rename g).blank := hd.rename hf
  have hwrite := Description.write_ne_empty_of_parse hparse
  obtain ⟨p, events, hcompile⟩ := exists_compile hd hwrite name settings
  obtain ⟨p', events', hcompile'⟩ := exists_compile hd'
    (Description.write_ne_empty_rename hne hwrite) name (settings.rename g)
  have hp := embodies_of_compile hd hcompile
  have hp' := embodies_of_compile hd' hcompile'
  obtain ⟨hmeans, -⟩ := means_of_compile hd hcompile
  obtain ⟨hmeans', -⟩ := means_of_compile hd' hcompile'
  -- Both descriptions are compiled, and the controls correspond under the new names.
  have hcorresponds := corresponds_of_rename hf hg hd hmeans hmeans'
  have hblank' : (settings.rename g).blank ≠ "" := hne settings.blank hblank
  refine ⟨Description.check_eq_ok_iff.mpr hd', p, events, p', events', hcompile, hcompile',
    shapedLike_of_rename hf hg hp hp' hcorresponds, fun hbudget content hcontent => ?_,
    fun hbudget => ⟨hp.machine_eq_error hblank hbudget, hp'.machine_eq_error hblank' hbudget⟩⟩
  have hcontent' : ∀ s ∈ content.map g, s ≠ "" := by
    intro u hu
    obtain ⟨s, hs, rfl⟩ := Array.mem_map.mp hu
    exact hne s (hcontent s hs)
  refine ⟨_, _, _, _, hp.machine_eq_ok_iff.mpr ⟨hblank, hbudget, rfl⟩,
    Machine.reset_eq_ok _ content hcontent, hp'.machine_eq_ok_iff.mpr ⟨hblank', hbudget, rfl⟩,
    Machine.reset_eq_ok _ _ hcontent', ?_⟩
  -- Fresh machines mirror each other, and so do they after their runs.
  have hmirrors : (Machine.fresh p.control settings content).Mirrors ⟨id, f, g⟩
      (Machine.fresh p'.control (settings.rename g) (content.map g)) :=
    Machine.mirrors_fresh hcorresponds hp.closed hp.roles.2.2 (by rfl) (by rfl) content
  exact hmirrors.runsLike hf hg

def tag (s : String) : String := "<" ++ s

theorem tag_injective : Function.Injective tag := by
  intro s t h
  have hchars : '<' :: s.toList = '<' :: t.toList := by
    simpa [tag] using congrArg String.toList h
  exact String.toList_inj.mp (List.cons.inj hchars).2

theorem tag_ne_empty (s : String) : tag s ≠ "" := by
  intro h
  simpa [tag] using congrArg String.toList h

/-- There is no line for `y`, and none for what it is renamed to. -/
theorem renamed_runs_alike_of_twoLines : ∃ d p events p' events' m₀ m m₀' m',
    Description.parse twoLines = .ok d ∧ compile "marks" d {} = .ok (p, events) ∧
      compile "marks" (d.rename tag tag) (Settings.rename tag {}) = .ok (p', events') ∧
      p.machine = .ok m₀ ∧ m₀.reset #["y"] = .ok m ∧
      p'.machine = .ok m₀' ∧ m₀'.reset #["<y"] = .ok m' ∧
      m.run.1 = .error (.undefinedTransition "a" "y") ∧
      m'.run.1 = .error (.undefinedTransition "<a" "<y") := by
  have hread : (do
      let d ← (Description.parse twoLines).toOption
      let _ ← (d.check "_").toOption
      let r ← (compile "marks" d {}).toOption
      let m₀ ← r.1.machine.toOption
      let m ← (m₀.reset #["y"]).toOption
      match m.run.1 with
      | .ok _ => none
      | .error fault => some fault) = some (.undefinedTransition "a" "y") := by decide +kernel
  cases hparse : Description.parse twoLines with
  | error e =>
    rw [hparse] at hread
    cases hread
  | ok d =>
    cases hcheck : d.check "_" with
    | error v => simp [hparse, Except.toOption, hcheck] at hread
    | ok u =>
      obtain ⟨-, p, events, p', events', hcompile, hcompile', -, hruns, -⟩ :=
        renamed_runs_alike hparse (show Settings.blank {} ≠ "" by decide) hcheck tag_injective
          tag_injective (fun s _ => tag_ne_empty s) "marks"
      obtain ⟨m₀, m, m₀', m', hm₀, hm, hm₀', hm', hlike⟩ :=
        hruns (by decide) #["y"] (by decide)
      rw [show (#["y"] : Array Symbol).map tag = #["<y"] by simp [tag]] at hm'
      have hfail : m.run.1 = .error (.undefinedTransition "a" "y") := by
        cases hrun : m.run.1 with
        | ok o => simp [hparse, hcheck, hcompile, hm₀, hm, hrun, Except.toOption] at hread
        | error fault =>
          obtain rfl : fault = .undefinedTransition "a" "y" := by
            simpa [hparse, hcheck, hcompile, hm₀, hm, hrun, Except.toOption] using hread
          rfl
      exact ⟨d, p, events, p', events', m₀, m, m₀', m', rfl, hcompile, hcompile', hm₀, hm, hm₀',
        hm', hfail, (hlike.undefined "a" "y").mpr hfail⟩

end Program

end SingleTape
