import SingleTape.Proofs.Machine.Refinement

/-!
# The events of calls tell what was done

Of every step there is one event, with what the machine was like before the step and what the step
did. So the events alone tell how the tape and the head got from what they were to what they are;
of attempts that fail they tell nothing. A run that does not fail has one event more, at its end.
-/

namespace SingleTape

def Event.move? : Event → Option Move
  | .stepped move => some move
  | _ => none

def movesOf (events : List Event) : List Move := events.filterMap Event.move?

def replay (cell : Nat → Symbol) (moves : List Move) : Nat → Symbol :=
  moves.foldl (fun cell move => Function.update cell move.head move.write) cell

namespace Machine

/-- The events of calls, of which each is made to the machine that the one before it left. -/
def log (m : Machine) : List Call → List Event
  | [] => []
  | c :: calls => (m.perform c).2.1.toList ++ log (m.perform c).2.2 calls

def moveIn (result : Except Fault Move) : List Move := result.toOption.toList

def lastEvent (d : Machine) (result : Except Fault Outcome) : List Event :=
  result.toOption.toList.map (.finished · d.steps)

/-- An attempt to step on a symbol, with its result and the machine it leaves: there is an entry for
the symbol and it is followed, or there is none. -/
inductive Attempts (m : Machine) (s : Symbol) : Except Fault Move → Machine → Prop
  | steps {q : State} {x : Transition} (hq : m.control.graph.get? m.state = some q)
      (hx : q.table.get? s = some x) :
      Attempts m s (.ok { state := q.name, symbol := s, head := m.tape.head, write := x.write,
                          direction := x.direction }) (m.charge.follow x)
  | fails {q : State} (hq : m.control.graph.get? m.state = some q) (hx : q.table.get? s = none) :
      Attempts m s (.error (.undefinedTransition q.name s)) m.charge

/-- A run, attempt by attempt, with its result and its events. -/
inductive TellsRun : Machine → Except Fault Outcome → List Event → Machine → Prop
  | ends {m : Machine} (hstop : m.status ≠ .running) :
      TellsRun m (.ok m.outcome) [.finished m.outcome m.steps] m
  | fails {m d : Machine} {fault : Fault} (hrun : m.status = .running)
      (hfail : m.Attempts m.tape.symbol (.error fault) d) : TellsRun m (.error fault) [] d
  | goesOn {m d e : Machine} {move : Move} {result : Except Fault Outcome} {events : List Event}
      (hrun : m.status = .running) (hstep : m.Attempts m.tape.symbol (.ok move) d)
      (hrest : TellsRun d result events e) : TellsRun m result (.stepped move :: events) e

/-- A call that puts no content on the tape, with its events. -/
inductive Tells (m : Machine) : Call → List Event → Machine → Prop
  | read {s : Symbol} {result : Except Fault Move} {d : Machine} (h : m.Attempts s result d) :
      Tells m (.read s) ((moveIn result).map .stepped) d
  | step {result : Except Fault Move} {d : Machine} (h : m.Attempts m.tape.symbol result d) :
      Tells m .step ((moveIn result).map .stepped) d
  | run {result : Except Fault Outcome} {events : List Event} {d : Machine}
      (h : m.TellsRun result events d) : Tells m .run events d
  | begin {result : Except Fault Outcome} {events : List Event} {d : Machine}
      (h : m.TellsRun result events d) : Tells m .begin events d

/-- Calls, one after the other, with their events. -/
inductive Transcript : Machine → List Call → List Event → Machine → Prop
  | nil {m : Machine} : Transcript m [] [] m
  | cons {m d e : Machine} {c : Call} {calls : List Call} {events more : List Event}
      (h : m.Tells c events d) (hrest : Transcript d calls more e) :
      Transcript m (c :: calls) (events ++ more) e

/-- From one machine to another by these moves, with attempts that failed anywhere among them. -/
inductive Walks : Machine → List Move → Machine → Prop
  | nil {m : Machine} : Walks m [] m
  | cons {m d e : Machine} {s : Symbol} {result : Except Fault Move} {moves : List Move}
      (h : m.Attempts s result d) (hrest : Walks d moves e) : Walks m (moveIn result ++ moves) e

/-- A run of the first machine that has got to the second after these events: what more there is to
tell of it is what there is to tell of the second. -/
structure ToldUpTo (m : Machine) (events : Array Event) (d : Machine) : Prop where
  grounded : d.Grounded
  tells : ∀ {result more e}, d.TellsRun result more e → m.TellsRun result (events.toList ++ more) e

/-! ## What the events tell -/

section Telling

variable {m d : Machine} {calls : List Call}

/-- What a read does is an attempt by the entries of the graph. -/
theorem attempts_read (hm : m.state ∈ m.control.graph) {s : Symbol} {result : Except Fault Move}
    (h : m.read s = (result, d)) : m.Attempts s result d := by
  rcases read_cases hm s with ⟨q, x, hq, hx, hread⟩ | ⟨q, hq, hx, hread⟩
  · cases h.symm.trans hread
    exact .steps hq hx
  · cases h.symm.trans hread
    exact .fails hq hx

theorem toldUpTo_start (hm : m.Grounded) : m.ToldUpTo #[] m := ⟨hm, id⟩

theorem ToldUpTo.step {events : Array Event} {move : Move} {e : Machine}
    (h : m.ToldUpTo events d) (hrun : d.status = .running) (hstep : d.step = (.ok move, e)) :
    m.ToldUpTo (events.push (.stepped move)) e := by
  have he := h.grounded.read d.tape.symbol
  rw [show d.read d.tape.symbol = _ from hstep] at he
  refine ⟨he, fun {result more f} hmore => ?_⟩
  rw [Array.toList_push, List.append_assoc]
  exact h.tells (.goesOn hrun (attempts_read h.grounded.state hstep) hmore)

/-- However a run ends, the events before its end are known, and its end tells itself. -/
theorem tellsRun_runLogged (hm : m.Grounded) :
    m.TellsRun m.runLogged.1 m.runLogged.2.1.toList m.runLogged.2.2 := by
  have hstep := fun events d move e (h : m.ToldUpTo events d) (hrun : d.status = .running)
    (hd : d.step = (.ok move, e)) => h.step hrun hd
  unfold runLogged
  split
  · rename_i outcome events d hd
    rcases runNoting_induction hstep (toldUpTo_start hm) hd with ⟨hok, htold, hstop⟩ | ⟨_, _, h, -⟩
    · cases hok
      rw [Array.toList_push]
      exact htold.tells (.ends hstop)
    · cases h
  · rename_i fault events d hd
    rcases runNoting_induction hstep (toldUpTo_start hm) hd with
      ⟨h, -⟩ | ⟨_, e, hfault, htold, hrun, hfail⟩
    · cases h
    · cases hfault
      have hlast := htold.tells (.fails hrun (attempts_read htold.grounded.state hfail))
      rwa [List.append_nil] at hlast

/-- Every call that is no reset gives the events of what it did. -/
theorem tells_perform (hm : m.Grounded) {c : Call} (hc : ∀ content, c ≠ .reset content) :
    m.Tells c (m.perform c).2.1.toList (m.perform c).2.2 := by
  cases c with
  | reset content => exact absurd rfl (hc content)
  | read s =>
    rw [perform]
    cases hread : m.read s with
    | mk result d =>
      have h := Tells.read (attempts_read hm.state hread)
      cases result <;> exact h
  | step =>
    rw [perform]
    cases hstep : m.step with
    | mk result d =>
      have h := Tells.step (attempts_read hm.state hstep)
      cases result <;> exact h
  | run => exact .run (tellsRun_runLogged hm)
  | begin => exact .begin (tellsRun_runLogged hm)

/-- The events of calls are a transcript of them. -/
theorem transcript_log (hm : m.Grounded) (hcalls : ∀ content, Call.reset content ∉ calls) :
    m.Transcript calls (m.log calls) (m.after calls) := by
  induction calls generalizing m with
  | nil => exact .nil
  | cons c calls ih =>
    refine .cons (tells_perform hm fun content hc => ?_) (ih (hm.perform c) ?_)
    · exact hcalls content (hc ▸ List.mem_cons_self)
    · exact fun content hmem => hcalls content (List.mem_cons_of_mem c hmem)

end Telling

/-! ## Moves -/

section Moves

variable {m d e : Machine} {events : List Event}

theorem movesOf_append (events more : List Event) :
    movesOf (events ++ more) = movesOf events ++ movesOf more :=
  List.filterMap_append

theorem movesOf_map_stepped (moves : List Move) : movesOf (moves.map .stepped) = moves := by
  induction moves with
  | nil => rfl
  | cons move moves ih => exact congrArg (move :: ·) ih

theorem Walks.trans {moves more : List Move} (h : m.Walks moves d) (h' : d.Walks more e) :
    m.Walks (moves ++ more) e := by
  induction h with
  | nil => exact h'
  | cons hattempt _ ih =>
    rw [List.append_assoc]
    exact .cons hattempt (ih h')

theorem Attempts.walks {s : Symbol} {result : Except Fault Move} (h : m.Attempts s result d) :
    m.Walks (moveIn result) d := by
  have hone := Walks.cons h .nil
  rwa [List.append_nil] at hone

/-- The moves told of a run lead from its beginning to its end. -/
theorem TellsRun.walks {result : Except Fault Outcome} (h : m.TellsRun result events d) :
    m.Walks (movesOf events) d := by
  induction h with
  | ends _ => exact .nil
  | fails _ hfail => exact hfail.walks
  | goesOn _ hstep _ ih => exact hstep.walks.trans ih

/-- The moves told of a call lead from the machine before it to the one after it. -/
theorem Tells.walks {c : Call} (h : m.Tells c events d) : m.Walks (movesOf events) d := by
  cases h with
  | read h =>
    rw [movesOf_map_stepped]
    exact h.walks
  | step h =>
    rw [movesOf_map_stepped]
    exact h.walks
  | run h => exact h.walks
  | begin h => exact h.walks

/-- The moves told of calls lead from the first machine to the last one. -/
theorem Transcript.walks {calls : List Call} (h : m.Transcript calls events d) :
    m.Walks (movesOf events) d := by
  induction h with
  | nil => exact .nil
  | cons h _ ih =>
    rw [movesOf_append]
    exact h.walks.trans ih

variable {moves : List Move}

/-- There are as many steps as moves. -/
theorem Walks.steps_eq (h : m.Walks moves d) : d.steps = m.steps + moves.length := by
  induction h with
  | nil => rfl
  | cons h _ ih =>
    cases h with
    | steps =>
      rw [ih, steps_follow, steps_charge, List.length_append, Nat.add_assoc]
      rfl
    | fails => exact ih

/-- Each move begins where the one before it has led, and the last has led to where the head is. -/
theorem Walks.heads (h : m.Walks moves d) :
    m.tape.head :: moves.map (fun x => Textbook.moved x.head x.direction) =
      moves.map (·.head) ++ [d.tape.head] := by
  induction h with
  | nil => rfl
  | cons h _ ih =>
    cases h with
    | steps =>
      rw [tape_follow, Tape.head_write, ← Textbook.moved_eq_headAfter] at ih
      exact congrArg (_ :: ·) ih
    | fails => exact ih

/-- Writing again what the moves wrote gives the cells of the last machine. -/
theorem Walks.padded_eq (h : m.Walks moves d) :
    d.tape.padded m.settings.blank = replay (m.tape.padded m.settings.blank) moves := by
  induction h with
  | nil => rfl
  | cons h _ ih =>
    cases h with
    | steps =>
      rw [tape_follow, settings_follow, settings_charge, Tape.padded_write] at ih
      exact ih
    | fails => exact ih

/-- A run has events of steps, and after them one more just if it does not fail. -/
theorem TellsRun.events_eq {result : Except Fault Outcome} (h : m.TellsRun result events d) :
    events = (movesOf events).map .stepped ++ d.lastEvent result := by
  induction h with
  | ends _ => rfl
  | fails _ _ => rfl
  | goesOn _ _ _ ih => exact congrArg (_ :: ·) ih

/-- The events of the trace are those of the steps, one for every move. -/
theorem filter_trace (events : List Event) :
    events.filter (·.level = .trace) = (movesOf events).map .stepped := by
  induction events with
  | nil => rfl
  | cons event events ih =>
    cases event with
    | stepped move => exact congrArg (_ :: ·) ih
    | _ => exact ih

end Moves

/-- The events of calls are a transcript of what the calls did, however the machine came about: for
each attempt to step, in order, an event with what was there before if it succeeded, and none if it
failed. So there are as many as steps, what they tell to have been written makes the tape what it
is, and each move begins where the one before it has led. A run has one event more, at its end,
just if it does not fail. -/
theorem transcript_of_calls {control : Control} (hg : control.graph.Built) {settings : Settings}
    {content : Array Symbol} {m₀ : Machine} (hcreate : create control settings content = .ok m₀)
    (before calls : List Call) (hcalls : ∀ content, Call.reset content ∉ calls) :
    let m := m₀.after before
    let d := m.after calls
    let moves := movesOf (m.log calls)
    m.Transcript calls (m.log calls) d ∧
    (m.log calls).filter (·.level = .trace) = moves.map .stepped ∧
    d.steps = m.steps + moves.length ∧
    d.tape.padded settings.blank = replay (m.tape.padded settings.blank) moves ∧
    m.tape.head :: moves.map (fun x => Textbook.moved x.head x.direction) =
      moves.map (·.head) ++ [d.tape.head] ∧
    ∃ result, (m.perform .run).1 = result.map .outcome ∧
      (m.perform .run).2.1.toList = (movesOf (m.perform .run).2.1.toList).map .stepped ++
        (m.perform .run).2.2.lastEvent result ∧
      (m.perform .begin).1 = result.map (fun o => .verdict o.isAccepted) ∧
      (m.perform .begin).2 = (m.perform .run).2 := by
  obtain ⟨hcontrol, -, -, rfl⟩ := create_eq_ok_iff.mp hcreate
  have hstart := (Control.check_eq_ok_iff.mp hcontrol).2.2
  have hm := (grounded_fresh hg.closed hstart settings content).after before
  -- The transcript is a walk, and a walk tells all that the moves do.
  have htranscript := transcript_log hm hcalls
  have hwalks := htranscript.walks
  have hpadded := hwalks.padded_eq
  rw [settings_after] at hpadded
  exact ⟨htranscript, filter_trace _, hwalks.steps_eq, hpadded, hwalks.heads, _, rfl,
    (tellsRun_runLogged hm).events_eq, rfl, rfl⟩

/-- Of two reads that fail and a step to the left in the first cell only the step is told, and then
the end of the run. -/
theorem transcript_of_calls_with_failing_reads : ∃ m₀, create .oneStep {} #["x", "x"] = .ok m₀ ∧
    (m₀.after [.read "z"]).log [.read "z", .step, .run] =
      [.stepped ⟨"q", "x", 0, "y", .left⟩, .finished .accepted 1] ∧
    (m₀.after [.read "z"]).Transcript [.read "z", .step, .run]
      [.stepped ⟨"q", "x", 0, "y", .left⟩, .finished .accepted 1]
      ((m₀.after [.read "z"]).after [.read "z", .step, .run]) ∧
    ((m₀.after [.read "z"]).after [.read "z", .step, .run]).tape.padded "_" =
      Function.update ((m₀.after [.read "z"]).tape.padded "_") 0 "y" := by
  have hcreate : create .oneStep {} #["x", "x"] = .ok (fresh .oneStep {} #["x", "x"]) :=
    create_eq_ok (by decide) (by decide) (by decide) (by decide) (by decide) (by decide)
  obtain ⟨htranscript, -, -, hpadded, -⟩ :=
    transcript_of_calls ⟨_, rfl⟩ hcreate [.read "z"] [.read "z", .step, .run] (by simp)
  have hlog : ((fresh .oneStep {} #["x", "x"]).after [.read "z"]).log [.read "z", .step, .run] =
      [.stepped ⟨"q", "x", 0, "y", .left⟩, .finished .accepted 1] := by decide +kernel
  rw [hlog] at htranscript hpadded
  exact ⟨_, hcreate, hlog, htranscript, hpadded⟩

end Machine

end SingleTape
