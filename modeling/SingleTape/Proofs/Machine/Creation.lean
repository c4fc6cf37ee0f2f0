import Mathlib.Algebra.Group.Nat.Defs
import SingleTape.Machine.Basic
import SingleTape.Proofs.Attempt

/-!
# Which machines there are

The conditions under which a machine can be had, and a content be put on its tape.
-/

namespace SingleTape

/-- A control is in order when its three states belong to its graph. -/
theorem Control.check_eq_ok_iff {c : Control} :
    c.check = .ok () ↔ c.accept ∈ c.graph ∧ c.reject ∈ c.graph ∧ c.start ∈ c.graph := by
  unfold check
  by_cases haccept : c.accept ∈ c.graph
  · by_cases hreject : c.reject ∈ c.graph
    · by_cases hstart : c.start ∈ c.graph
      · simp [handle, haccept, hreject, hstart]
      · simp [handle, haccept, hreject, hstart]
    · simp [handle, haccept, hreject]
  · simp [handle, haccept]

/-- Settings are in order with a symbol for the empty cell and a budget that can be counted down.
-/
theorem Settings.check_eq_ok_iff {s : Settings} :
    s.check = .ok () ↔ s.blank ≠ "" ∧ s.budget < Settings.budgetLimit := by
  unfold check
  by_cases hblank : s.blank = ""
  · simp [hblank]
  · by_cases hbudget : s.budget < Settings.budgetLimit
    · simp [hblank, hbudget]
    · simp [hblank, hbudget]

namespace Machine

/-- A content is in order when none of its symbols is empty. -/
theorem checkContent_eq_ok_iff {content : Array Symbol} :
    checkContent content = .ok () ↔ ∀ s ∈ content, s ≠ "" := by
  unfold checkContent
  cases h : content.findIdx? fun s => s = "" with
  | none =>
    rw [Array.findIdx?_eq_none_iff] at h
    simpa using h
  | some i =>
    obtain ⟨hi, hs, -⟩ := Array.findIdx?_eq_some_iff_getElem.1 h
    constructor
    · intro hok
      cases hok
    · intro hne
      exact absurd (by simpa using hs) (hne content[i] (Array.getElem_mem hi))

theorem ne_empty_of_mem_symbolsOfWord {word : String} {s : Symbol} (h : s ∈ symbolsOfWord word) :
    s ≠ "" := by
  obtain ⟨c, -, rfl⟩ := List.mem_map.mp (List.mem_toArray.mp h)
  exact String.singleton_ne_empty

/-- What is created is the fresh machine, and there is one exactly when control, settings and
content are in order. -/
theorem create_eq_ok_iff {control : Control} {settings : Settings} {content : Array Symbol}
    {m : Machine} :
    create control settings content = .ok m ↔
      control.check = .ok () ∧ settings.check = .ok () ∧ checkContent content = .ok () ∧
        m = fresh control settings content := by
  unfold create
  simp only [bind_eq_ok_iff, pure, Except.pure, Except.ok.injEq]
  constructor
  · rintro ⟨_, hcontrol, _, hsettings, _, hcontent, rfl⟩
    exact ⟨hcontrol, hsettings, hcontent, rfl⟩
  · rintro ⟨hcontrol, hsettings, hcontent, rfl⟩
    exact ⟨(), hcontrol, (), hsettings, (), hcontent, rfl⟩

theorem create_eq_ok {control : Control} {settings : Settings} {content : Array Symbol}
    (haccept : control.accept ∈ control.graph) (hreject : control.reject ∈ control.graph)
    (hstart : control.start ∈ control.graph) (hblank : settings.blank ≠ "")
    (hbudget : settings.budget ≤ 2 ^ 63 - 1) (hcontent : ∀ s ∈ content, s ≠ "") :
    create control settings content = .ok (fresh control settings content) := by
  have hlimit : Settings.budgetLimit = 2 ^ 63 := rfl
  exact create_eq_ok_iff.2 ⟨Control.check_eq_ok_iff.2 ⟨haccept, hreject, hstart⟩,
    Settings.check_eq_ok_iff.2 ⟨hblank, by omega⟩, checkContent_eq_ok_iff.2 hcontent, rfl⟩

/-- A reset needs a content that is in order, and makes the machine a fresh one for it. -/
theorem reset_eq_ok_iff {m m' : Machine} {content : Array Symbol} :
    m.reset content = .ok m' ↔
      checkContent content = .ok () ∧ m' = fresh m.control m.settings content := by
  unfold reset
  simp only [bind_eq_ok_iff, pure, Except.pure, Except.ok.injEq]
  constructor
  · rintro ⟨_, hcontent, rfl⟩
    exact ⟨hcontent, rfl⟩
  · rintro ⟨hcontent, rfl⟩
    exact ⟨(), hcontent, rfl⟩

theorem reset_eq_ok (m : Machine) (content : Array Symbol)
    (hcontent : ∀ s ∈ content, s ≠ "") :
    m.reset content = .ok (fresh m.control m.settings content) :=
  reset_eq_ok_iff.2 ⟨checkContent_eq_ok_iff.2 hcontent, rfl⟩

/-- Nothing but the content decides whether it is refused, and why. -/
theorem reset_eq_error_iff {m : Machine} {content : Array Symbol} {fault : Fault} :
    m.reset content = .error fault ↔ checkContent content = .error fault := by
  have hmap : m.reset content =
      (checkContent content).map fun _ => fresh m.control m.settings content := by
    unfold reset
    cases checkContent content with
    | error _ => rfl
    | ok _ => rfl
  rw [hmap, map_eq_error_iff]

/-- The only cause for which a content is refused is an empty symbol. -/
theorem exists_position_of_reset_eq_error {m : Machine} {content : Array Symbol} {fault : Fault}
    (h : m.reset content = .error fault) : ∃ i, fault = .emptyTapeSymbol i := by
  unfold reset checkContent at h
  split at h
  · rename_i i hi
    cases h
    exact ⟨i, rfl⟩
  · cases h

end Machine

end SingleTape
