import SingleTape.Proofs.Machine.Stepping
import SingleTape.Proofs.Machine.Textbook
import SingleTape.Proofs.Tape.Padding

/-!
# Machines are textbook machines

A machine keeps a finite part of the tape of a textbook machine that takes the same steps. The steps
are those that succeeded since a content was last put on the tape; calls that fail take none. The
main statement is about all histories of calls.
-/

namespace SingleTape

open Textbook (Config Input)

def Graph.rules (g : Graph) : Textbook.Rules StateId := fun id s =>
  (g.transition? id s).map fun x => { next := x.target, write := x.write, direction := x.direction }

/-- A control with one transition, from its start state to its accept state. -/
def Control.oneStep : Control where
  graph := Graph.after ∅ [.addState "q", .addState "a", .connect ⟨0⟩ "x" ⟨1⟩ "y" .left]
  start := ⟨0⟩
  accept := ⟨1⟩
  reject := ⟨1⟩

namespace Machine

/-- The content that was last put on a tape, and what the steps taken since went by. -/
structure History where
  content : Array Symbol
  inputs : List Input

def History.push (h : History) (inputs : List Input) : History :=
  { h with inputs := h.inputs ++ inputs }

/-- How many steps a call takes: the symbols it reads for which there is a transition. -/
def stepsTaken (m : Machine) (c : Call) : Nat := (m.reads c).countP (·.isOk)

/-- The history after a call. A content that is refused changes nothing. -/
def History.extend (h : History) (m : Machine) : Call → History
  | .reset content => if (m.reset content).isOk then { content, inputs := [] } else h
  | .read s => h.push (List.replicate (m.stepsTaken (.read s)) (.supplied s))
  | .step => h.push (List.replicate (m.stepsTaken .step) .scanned)
  | .run => h.push (List.replicate (m.stepsTaken .run) .scanned)
  | .begin => h.push (List.replicate (m.stepsTaken .begin) .scanned)

/-- The history of a machine after calls, of which each is made to the machine that the one before
it left. -/
def history (m : Machine) (h : History) : List Call → History
  | [] => h
  | c :: calls => history (m.perform c).2.2 (h.extend m c) calls

/-- The machine and a configuration are in the same state, with the head at the same position and
the same symbols in all cells. -/
structure Pictures (m : Machine) (c : Config StateId) : Prop where
  state : m.state = c.state
  head : m.tape.head = c.head
  cell : ∀ i, m.tape.padded m.settings.blank i = c.cell i

def origin (m : Machine) (h : History) : Config StateId :=
  .initial m.control.start h.content m.settings.blank

/-- The length of a tape for a content of the given length, after steps at these positions: there is
a cell behind the content and behind each cell that was written to. -/
def extent (length : Nat) (positions : List Nat) : Nat :=
  positions.foldl (fun n p => max n (p + 2)) (length + 1)

/-- The machine shows the configuration that a textbook machine with the same history is in, and its
tape is as long as that history asks for. -/
structure Represents (m : Machine) (h : History) (c : Config StateId) : Prop where
  after : (m.origin h).after m.control.graph.rules h.inputs = some c
  pictures : m.Pictures c
  steps : m.steps = h.inputs.length
  endsIn : m.tape.EndsIn m.settings.blank
  size : m.tape.size =
    extent h.content.size ((m.origin h).positions m.control.graph.rules h.inputs)

theorem extent_append_singleton (length : Nat) (positions : List Nat) (p : Nat) :
    extent length (positions ++ [p]) = max (extent length positions) (p + 2) := by
  unfold extent
  rw [List.foldl_append]
  rfl

/-- With steps at all, the furthest of their positions decides. -/
theorem extent_eq_of_max? {length p : Nat} {positions : List Nat} (h : positions.max? = some p) :
    extent length positions = max (length + 1) (p + 2) := by
  have hfold : ∀ (ps : List Nat) (n r : Nat),
      ps.foldl (fun n p => max n (p + 2)) (max n (r + 2)) = max n (ps.foldl max r + 2) := by
    intro ps
    induction ps with
    | nil =>
      intro n r
      rfl
    | cons q ps ih =>
      intro n r
      rw [List.foldl_cons, List.foldl_cons, ← ih]
      congr 1
      omega
  cases positions with
  | nil => cases h
  | cons r ps =>
    obtain rfl : ps.foldl max r = p := Option.some.inj h
    exact hfold ps (length + 1) r

/-- History and configuration determine the tape, also how long it is. -/
theorem Represents.tape_eq {m m' : Machine} {h : History} {c : Config StateId}
    (hm : m.Represents h c) (hm' : m'.Represents h c) (hcontrol : m'.control = m.control)
    (hblank : m'.settings.blank = m.settings.blank) : m'.tape = m.tape := by
  have horigin : m'.origin h = m.origin h := by
    unfold origin
    rw [hcontrol, hblank]
  apply Tape.ext_padded m.settings.blank
  · rw [hm'.pictures.head, hm.pictures.head]
  · rw [hm'.size, hm.size, horigin, hcontrol]
  · intro i
    have hcell := hm'.pictures.cell i
    rw [hblank] at hcell
    rw [hcell, hm.pictures.cell]

/-! ## What one step keeps -/

/-- A fresh machine shows the initial configuration of its content. -/
theorem represents_fresh (control : Control) (settings : Settings) (content : Array Symbol) :
    (fresh control settings content).Represents { content, inputs := [] }
      (.initial control.start content settings.blank) where
  after := rfl
  pictures := ⟨rfl, rfl, Tape.padded_ofContent content settings.blank⟩
  steps := rfl
  endsIn := Tape.endsIn_ofContent content settings.blank
  size := Array.size_push _

/-- The budget is no part of the picture. -/
theorem Represents.charge {m : Machine} {h : History} {c : Config StateId}
    (hm : m.Represents h c) : m.charge.Represents h c where
  after := hm.after
  pictures := ⟨hm.pictures.state, hm.pictures.head, hm.pictures.cell⟩
  steps := hm.steps
  endsIn := hm.endsIn
  size := hm.size

/-- Following an entry does to the machine what the rule does to the configuration. -/
theorem Pictures.follow {m : Machine} {c : Config StateId} (hm : m.Pictures c) (x : Transition) :
    (m.follow x).Pictures
      (c.follow { next := x.target, write := x.write, direction := x.direction }) where
  state := rfl
  head := by
    rw [tape_follow, Tape.head_write, ← Textbook.moved_eq_headAfter, hm.head]
    rfl
  cell i := by
    rw [tape_follow, settings_follow, Tape.padded_write, hm.head,
      show m.tape.padded m.settings.blank = c.cell from funext hm.cell]
    rfl

/-- Taking the entry for the symbol read is the step of the textbook machine. -/
theorem Represents.follow {m : Machine} {h : History} {c : Config StateId} {i : Input}
    {x : Transition} (hm : m.Represents h c)
    (hx : m.control.graph.transition? m.state (c.symbol i) = some x) :
    ∃ d, (m.follow x).Represents (h.push [i]) d := by
  have hstep : c.step m.control.graph.rules i =
      some (c.follow { next := x.target, write := x.write, direction := x.direction }) := by
    unfold Config.step Graph.rules
    rw [← hm.pictures.state, hx]
    rfl
  -- The history, the steps and the length of the tape each grow by this one step.
  refine ⟨_, ?_, hm.pictures.follow x, ?_, hm.endsIn.write _ _, ?_⟩
  · show (m.origin h).after m.control.graph.rules (h.inputs ++ [i]) = _
    rw [Config.after_append, hm.after, Option.bind_some, Config.after_singleton]
    exact hstep
  · show m.steps + 1 = (h.inputs ++ [i]).length
    rw [hm.steps, List.length_append]
    rfl
  · show (m.tape.write x.write x.direction m.settings.blank).size =
      extent h.content.size ((m.origin h).positions m.control.graph.rules (h.inputs ++ [i]))
    rw [Config.positions_append_singleton hm.after, extent_append_singleton, Tape.size_write,
      ← hm.size, hm.pictures.head]

/-- A successful read is a step of the textbook machine on the same input. -/
theorem Represents.read {m m' : Machine} {h : History} {c : Config StateId} {i : Input}
    {move : Move} (hm : m.Represents h c) (hg : m.Grounded)
    (hread : m.read (c.symbol i) = (.ok move, m')) : ∃ d, m'.Represents (h.push [i]) d := by
  rcases read_cases hg.state (c.symbol i) with ⟨q, x, hq, hx, hok⟩ | ⟨q, -, -, herror⟩
  · rw [hok] at hread
    cases hread
    refine Represents.follow hm.charge ?_
    show m.control.graph.transition? m.state (c.symbol i) = some x
    rw [Graph.transition?, hq]
    exact hx
  · rw [herror] at hread
    cases hread

/-- A failed read changes nothing that the configuration shows. -/
theorem Represents.read_error {m m' : Machine} {h : History} {c : Config StateId} {s : Symbol}
    {fault : Fault} (hm : m.Represents h c) (hread : m.read s = (.error fault, m')) :
    m'.Represents h c := by
  unfold Machine.read at hread
  split at hread
  · cases hread
  · cases hread
    exact hm.charge

/-- The symbol that a step reads is the one in the textbook machine's cell. -/
theorem Pictures.symbol {m : Machine} {c : Config StateId} (hm : m.Pictures c) :
    m.tape.symbol = c.symbol .scanned := by
  rw [← Tape.padded_head m.tape m.settings.blank, hm.cell, hm.head]
  rfl

/-- A step in a state of the graph fails for want of a transition, not of a state. -/
theorem kind_of_read_eq_error {m m' : Machine} {s : Symbol} {fault : Fault} (hg : m.Grounded)
    (h : m.read s = (.error fault, m')) : fault.kind ≠ .invalidState := by
  rcases read_cases hg.state s with ⟨q, x, -, -, hok⟩ | ⟨q, -, -, herror⟩
  · rw [hok] at h
    cases h
  · rw [herror] at h
    cases h
    show FaultKind.undefinedTransition ≠ .invalidState
    decide

/-! ## What one call keeps -/

theorem History.push_push (h : History) (a b : List Input) :
    (h.push a).push b = h.push (a ++ b) := by
  unfold History.push
  rw [List.append_assoc]

theorem History.push_nil (h : History) : h.push [] = h := by
  unfold History.push
  rw [List.append_nil]

/-- What holds of a machine and its history between calls. -/
def Tracks (m : Machine) (h : History) : Prop := m.Grounded ∧ ∃ c, m.Represents h c

/-- What a machine that takes a single step leaves, with the history that this step extends. -/
theorem Tracks.read {m m' : Machine} {h : History} {s : Symbol} {result : Except Fault Move}
    (hg : m.Grounded) {c : Config StateId} (hc : m.Represents h c) {i : Input}
    (hs : c.symbol i = s) (hread : m.read s = (result, m')) :
    (∃ move, result = .ok move ∧ m'.Tracks (h.push [i])) ∨
      ∃ fault, result = .error fault ∧ m'.Tracks (h.push []) ∧ fault.kind ≠ .invalidState := by
  subst hs
  rw [History.push_nil]
  have hg' := hg.read (c.symbol i)
  rw [hread] at hg'
  cases result with
  | ok move => exact .inl ⟨move, rfl, hg', hc.read hg hread⟩
  | error fault =>
    exact .inr ⟨fault, rfl, ⟨hg', c, hc.read_error hread⟩, kind_of_read_eq_error hg hread⟩

/-- Along a run the history grows by one step of the machine's own for each symbol that is read and
has a transition. -/
theorem Tracks.run {m : Machine} {h : History} (hm : m.Tracks h) :
    m.run.2.Tracks (h.push (List.replicate (m.runReads.countP (·.isOk)) .scanned)) ∧
      ∀ fault, m.run.1 = .error fault → fault.kind ≠ .invalidState := by
  -- The induction is on what the run reads.
  induction m using runReads.induct generalizing h with
  | case1 m hrun move d hstep ih =>
    obtain ⟨hg, c, hc⟩ := hm
    rcases Tracks.read hg hc hc.pictures.symbol.symm hstep with ⟨-, -, hd⟩ | ⟨_, hfault, -⟩
    · obtain ⟨hlast, hkind⟩ := ih hd
      rw [History.push_push] at hlast
      rw [run_of_step_ok hrun hstep, runReads_of_step_ok hrun hstep,
        List.countP_cons_of_pos (show (Except.ok move : Except Fault Move).isOk = true from rfl),
        List.replicate_succ]
      exact ⟨hlast, hkind⟩
    · cases hfault
  | case2 m hrun fault d hstep =>
    obtain ⟨hg, c, hc⟩ := hm
    rcases Tracks.read hg hc hc.pictures.symbol.symm hstep with ⟨_, hok, -⟩ | ⟨_, hfault, hd, hkind⟩
    · cases hok
    · cases hfault
      rw [run_of_step_error hrun hstep, runReads_of_step_error hrun hstep]
      refine ⟨hd, fun f hf => ?_⟩
      cases hf
      exact hkind
  | case3 m hstop =>
    rw [run_of_not_running hstop, runReads_of_not_running hstop]
    refine ⟨?_, fun f hf => nomatch hf⟩
    rw [show List.replicate _ Input.scanned = [] from rfl, History.push_nil]
    exact hm

/-- Every call keeps a machine in step with its history, and none fails for want of a state. -/
theorem Tracks.perform {m : Machine} {h : History} (hm : m.Tracks h) (call : Call) :
    (m.perform call).2.2.Tracks (h.extend m call) ∧
      ∀ fault, (m.perform call).1 = .error fault → fault.kind ≠ .invalidState := by
  obtain ⟨hg, c, hc⟩ := hm
  -- A reset begins a new history; the other calls make the history longer by what they read.
  cases call with
  | reset content =>
    rw [History.extend, Machine.perform]
    cases hreset : m.reset content with
    | ok m' =>
      obtain ⟨-, rfl⟩ := reset_eq_ok_iff.1 hreset
      exact ⟨⟨hg.fresh content, _, represents_fresh _ _ _⟩, fun _ hf => by cases hf⟩
    | error fault =>
      refine ⟨⟨hg, c, hc⟩, fun f hf => ?_⟩
      cases hf
      -- A refused content is a fault of the tape.
      obtain ⟨i, rfl⟩ := exists_position_of_reset_eq_error hreset
      show FaultKind.invalidTape ≠ .invalidState
      decide
  | read s =>
    rw [History.extend, stepsTaken, reads, Machine.perform]
    cases hread : m.read s with
    | mk result m' =>
      rcases Tracks.read hg hc (i := .supplied s) rfl hread with
        ⟨move, rfl, hm'⟩ | ⟨f, rfl, hm', hf⟩
      · exact ⟨hm', fun _ hf => by cases hf⟩
      · refine ⟨hm', fun f' hf' => ?_⟩
        cases hf'
        exact hf
  | step =>
    rw [History.extend, stepsTaken, reads, Machine.perform]
    cases hread : m.step with
    | mk result m' =>
      rcases Tracks.read hg hc hc.pictures.symbol.symm hread with
        ⟨move, rfl, hm'⟩ | ⟨f, rfl, hm', hf⟩
      · exact ⟨hm', fun _ hf => by cases hf⟩
      · refine ⟨hm', fun f' hf' => ?_⟩
        cases hf'
        exact hf
  | run =>
    obtain ⟨hm', hkind⟩ := Tracks.run ⟨hg, c, hc⟩
    rw [(perform_run m).1, (perform_run m).2]
    exact ⟨hm', fun fault hfault => hkind fault (map_eq_error_iff.1 hfault)⟩
  | begin =>
    obtain ⟨hm', hkind⟩ := Tracks.run ⟨hg, c, hc⟩
    rw [(perform_begin m).1, (perform_begin m).2]
    exact ⟨hm', fun fault hfault => hkind fault (map_eq_error_iff.1 hfault)⟩

/-! ## Histories -/

/-- Over any calls the machine keeps showing what its history leads to. -/
theorem Tracks.after {m : Machine} {h : History} (hm : m.Tracks h) (calls : List Call) :
    (m.after calls).Tracks (m.history h calls) := by
  induction calls generalizing m h with
  | nil => exact hm
  | cons call calls ih => exact ih (hm.perform call).1

/-- What is true of a machine with the given control and empty symbol after the given history. The
configuration is the one that a textbook machine with the same rules reaches by the same steps. -/
structure Faithful (control : Control) (blank : Symbol) (m : Machine) (h : History) : Prop where
  config : ∃ c, (Config.initial control.start h.content blank).after control.graph.rules h.inputs =
      some c ∧ m.state = c.state ∧ m.tape.head = c.head ∧ ∀ i, m.tape.padded blank i = c.cell i
  steps : m.steps = h.inputs.length
  head_lt : m.tape.head < m.tape.size
  state_mem : m.state ∈ control.graph
  currentState : ∃ q, m.currentState = .ok q
  kind_ne : ∀ call fault, (m.perform call).1 = .error fault → fault.kind ≠ .invalidState
  last_blank : m.tape.cells[m.tape.size - 1]? = some blank
  size_unstepped : h.inputs = [] → m.tape.size = h.content.size + 1
  size_stepped : h.inputs ≠ [] → ∃ p,
    ((Config.initial control.start h.content blank).positions control.graph.rules h.inputs).max? =
      some p ∧ m.tape.size = max (h.content.size + 1) (p + 2)

/-- What a machine that tracks its history has to show for it. -/
theorem Tracks.faithful {m : Machine} {h : History} (hm : m.Tracks h) :
    m.Faithful m.control m.settings.blank h := by
  obtain ⟨hg, c, hc⟩ := id hm
  obtain ⟨q, hq⟩ := Graph.exists_get?_of_mem hg.state
  refine ⟨⟨c, hc.after, hc.pictures.state, hc.pictures.head, hc.pictures.cell⟩, hc.steps,
    m.tape.head_lt_size, hg.state, ⟨q, currentState_of_get? hq⟩,
    fun call => (hm.perform call).2, hc.endsIn, fun hnil => ?_, fun hne => ?_⟩
  · rw [hc.size, hnil]
    rfl
  · obtain ⟨i, inputs, hi⟩ := List.exists_cons_of_ne_nil hne
    have hsome : ((m.origin h).positions m.control.graph.rules h.inputs).max?.isSome := by
      rw [hi]
      rfl
    obtain ⟨p, hp⟩ := Option.isSome_iff_exists.1 hsome
    exact ⟨p, hp, hc.size.trans (extent_eq_of_max? hp)⟩

end Machine

/-- A machine over a graph that was built by calls, with usable settings and a content without empty
symbols, can be had, and is faithful to the textbook machine after every history of calls. -/
theorem Machine.faithful_after {g : Graph} (hg : g.Built) {start accept reject : StateId}
    (hstart : start ∈ g) (haccept : accept ∈ g) (hreject : reject ∈ g) {settings : Settings}
    (hblank : settings.blank ≠ "") (hbudget : settings.budget ≤ 2 ^ 63 - 1)
    {content : Array Symbol} (hcontent : ∀ s ∈ content, s ≠ "") :
    ∃ m, create { graph := g, start, accept, reject } settings content = .ok m ∧
      ∀ calls, (m.after calls).Faithful { graph := g, start, accept, reject } settings.blank
        (m.history { content, inputs := [] } calls) := by
  refine ⟨fresh { graph := g, start, accept, reject } settings content,
    create_eq_ok haccept hreject hstart hblank hbudget hcontent, fun calls => ?_⟩
  have htracks : (fresh { graph := g, start, accept, reject } settings content).Tracks
      { content, inputs := [] } :=
    ⟨grounded_fresh hg.closed hstart _ _, _, represents_fresh _ _ _⟩
  have h := (htracks.after calls).faithful
  rw [control_after, settings_after] at h
  exact h

/-- The machine with one transition, which is for the content and goes left in the first cell. -/
theorem Machine.faithful_after_left_move :
    ∃ m, create .oneStep {} #["x"] = .ok m ∧ ∀ calls, (m.after calls).Faithful .oneStep "_"
      (m.history { content := #["x"], inputs := [] } calls) :=
  faithful_after ⟨_, rfl⟩ (by decide) (by decide) (by decide) (by decide) (by decide) (by decide)

end SingleTape
