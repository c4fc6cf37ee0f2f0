import SingleTape.Proofs.Description.Reachable
import SingleTape.Proofs.Program.Loading

/-!
# States that runs get to

A machine of a program is only ever in states that the lines lead to, whatever is asked of it. If no
line replaces another, all of these states can be got to by reading suitable symbols, since a symbol
may be read that is not under the head.
-/

namespace SingleTape

namespace Machine

/-- The answers to calls, of which each is made to the machine that the one before it left. -/
def answers (m : Machine) : List Call → List (Except Fault Reply)
  | [] => []
  | c :: calls => (m.perform c).1 :: answers (m.perform c).2.2 calls

/-- The machine goes by the lines of the description, in a state that the lines lead to. -/
structure Reached (m : Machine) (d : Description) : Prop where
  means : Means d m.control
  state : ∃ q, d.stateNames[m.state.index]? = some q ∧ d.Reachable q

variable {m : Machine} {d : Description}

theorem reached_fresh {control : Control} (h : Means d control) (settings : Settings)
    (content : Array Symbol) : (fresh control settings content).Reached d where
  means := h
  state := ⟨_, h.start, .refl⟩

/-- A step goes along a line, or stays where it is. -/
theorem Reached.read (hm : m.Reached d) (s : Symbol) : (m.read s).2.Reached d := by
  obtain ⟨q, hq, hreach⟩ := hm.state
  have hcontrol := control_read m s
  rcases read_line_cases hm.means hq s with
    ⟨t, ht, rfl, -, move, m', hread, -, hnext⟩ | ⟨-, hread⟩
  · rw [hread] at hcontrol ⊢
    refine ⟨?_, t.next, hnext, hreach.tail (List.mem_map.mpr ⟨t, ht, rfl⟩)⟩
    rw [hcontrol]
    exact hm.means
  · rw [hread]
    exact ⟨hm.means, hm.state⟩

theorem Reached.after (hm : m.Reached d) (calls : List Call) : (m.after calls).Reached d :=
  after_preserves (P := fun m => m.Reached d) (fun _ s hm => hm.read s)
    (fun content _ _ hm => reached_fresh hm.means _ content) hm

theorem currentState_map_name (hm : Means d m.control) {q : String}
    (hq : d.stateNames[m.state.index]? = some q) : m.currentState.map (·.name) = .ok q := by
  rw [← hm.graph.name] at hq
  exact currentState_map_name_iff.mpr (Option.map_eq_some_iff.mp hq)

theorem perform_read_of_eq_ok {m' : Machine} {s : Symbol} {move : Move}
    (h : m.read s = (.ok move, m')) : m.perform (.read s) = (.ok .done, #[.stepped move], m') := by
  rw [perform, h]

/-- Reading what the lines of a path are for goes along the path. -/
theorem exists_reads (hd : (d.transitions.map (·.key)).Nodup) {a b : String}
    (hpath : Relation.ReflTransGen (Description.Leads d.edges) a b) :
    ∃ symbols : List Symbol, ∀ m : Machine, Means d m.control →
      d.stateNames[m.state.index]? = some a →
      (∀ answer ∈ m.answers (symbols.map .read), answer = .ok .done) ∧
      (m.after (symbols.map .read)).currentState.map (·.name) = .ok b := by
  -- The induction is on the path.
  induction hpath using Relation.ReflTransGen.head_induction_on with
  | refl => exact ⟨[], fun m hm hb => ⟨by simp [answers], currentState_map_name hm hb⟩⟩
  | @head a c hac _ ih =>
    obtain ⟨symbols, ih⟩ := ih
    obtain ⟨t, ht, heq⟩ := List.mem_map.mp hac
    obtain ⟨rfl, rfl⟩ := Prod.ext_iff.mp heq
    refine ⟨t.read :: symbols, fun m hm ha => ?_⟩
    rcases read_line_cases hm ha t.read with
      ⟨u, hu, hstate, hsymbol, move, m', hread, -, hnext⟩ | ⟨hnone, -⟩
    · obtain rfl : u = t := List.inj_on_of_nodup_map hd hu ht (Prod.ext hstate hsymbol)
      have hcontrol := control_read m u.read
      rw [hread] at hcontrol
      obtain ⟨hanswers, hlast⟩ := ih m' (by rw [hcontrol]; exact hm) hnext
      rw [List.map_cons, answers, after, List.foldl_cons, perform_read_of_eq_ok hread]
      exact ⟨List.forall_mem_cons.mpr ⟨rfl, hanswers⟩, hlast⟩
    · exact absurd ⟨rfl, rfl⟩ (hnone t ht)

end Machine

namespace Program

variable {name text : String} {settings : Settings} {p : Program} {events : Array Event}

/-- No machine of a program is ever in a state that is reported as unreachable. If no two lines are
for the same state and symbol, a machine can be brought to every other state by reading symbols. -/
theorem visits_all_but_reported (hload : load name text settings = .ok (p, events))
    (hblank : settings.blank ≠ "") (hbudget : settings.budget ≤ 2 ^ 63 - 1) :
    ∃ d m₀, Description.parse text = .ok d ∧ p.machine = .ok m₀ ∧
      (∀ calls, ∃ q, (m₀.after calls).currentState.map (·.name) = .ok q ∧
        q ∉ d.unreachableStates) ∧
      ((d.transitions.map (·.key)).Nodup → ∀ q ∈ d.stateNames, q ∉ d.unreachableStates →
        ∃ symbols : List Symbol,
          (∀ answer ∈ m₀.answers (symbols.map .read), answer = .ok .done) ∧
          (m₀.after (symbols.map .read)).currentState.map (·.name) = .ok q) := by
  obtain ⟨d, hparse, -, hmeans, hp⟩ := exists_description hload
  refine ⟨d, Machine.fresh p.control settings #[], hparse,
    hp.machine_eq_ok_iff.mpr ⟨hblank, hbudget, rfl⟩, fun calls => ?_, fun hd q hq hreported => ?_⟩
  · have hm := (Machine.reached_fresh hmeans settings #[]).after calls
    obtain ⟨q, hq, hreach⟩ := hm.state
    exact ⟨q, Machine.currentState_map_name hm.means hq,
      (Description.notMem_unreachableStates_iff (List.mem_of_getElem? hq)).mpr hreach⟩
  · have hreach := (Description.notMem_unreachableStates_iff hq).mp hreported
    -- Every edge on the way is a line, and reading its symbol takes it.
    obtain ⟨symbols, hreads⟩ := Machine.exists_reads hd hreach
    exact ⟨symbols, hreads _ hmeans hmeans.start⟩

/-- The state `c` has a line, but no line leads to it. -/
def island : String :=
  "states 4\na\nb +\nc -\nu\nalphabet 1 x\na x u x R\nu _ b _ R\nc x b x R\n"

theorem visits_all_but_reported_of_island : ∃ p events d m₀,
    load "island" island {} = .ok (p, events) ∧ Description.parse island = .ok d ∧
      p.machine = .ok m₀ ∧ d.unreachableStates = ["c"] ∧
      (∀ calls, (m₀.after calls).currentState.map (·.name) ≠ .ok "c") ∧
      ∃ symbols : List Symbol,
        (∀ answer ∈ m₀.answers (symbols.map .read), answer = .ok .done) ∧
        (m₀.after (symbols.map .read)).currentState.map (·.name) = .ok "b" := by
  have hread : (do
      let _ ← (load "island" island {}).toOption
      let d ← (Description.parse island).toOption
      pure (d.unreachableStates = ["c"] ∧ (d.transitions.map (·.key)).Nodup ∧
        "b" ∈ d.stateNames : Bool)) = some true := by decide +kernel
  cases hload : load "island" island {} with
  | error e =>
    rw [hload] at hread
    cases hread
  | ok r =>
    obtain ⟨p, events⟩ := r
    obtain ⟨d, m₀, hparse, hmachine, hnever, hreads⟩ :=
      visits_all_but_reported hload (by decide) (by decide)
    rw [hload, hparse] at hread
    obtain ⟨hreported, hkeys, hmem⟩ := of_decide_eq_true (Option.some.inj hread)
    refine ⟨p, events, d, m₀, rfl, hparse, hmachine, hreported, fun calls hc => ?_,
      hreads hkeys "b" hmem (by rw [hreported]; decide)⟩
    obtain ⟨q, hq, hnot⟩ := hnever calls
    rw [hc] at hq
    cases hq
    exact hnot (by rw [hreported]; decide)

end Program

end SingleTape
