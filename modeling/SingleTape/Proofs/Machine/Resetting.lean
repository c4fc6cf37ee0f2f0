import Mathlib.Data.Nat.Find
import SingleTape.Proofs.Machine.Refinement

/-!
# Machines forget

Putting a content on the tape leaves nothing of what the machine did before. The main statement
compares a machine with any history of calls behind it, failed ones included, to one that has just
been made for the content.
-/

namespace SingleTape.Machine

variable {control : Control} {settings : Settings} {content content₀ content₁ : Array Symbol}
  {m₀ m₁ : Machine}

/-- A content with an empty symbol is refused for the first one. -/
theorem checkContent_eq_error {i : Nat} (hi : content[i]? = some "")
    (hfirst : ∀ j < i, content[j]? ≠ some "") :
    checkContent content = .error (.emptyTapeSymbol i) := by
  obtain ⟨hlt, hs⟩ := Array.getElem?_eq_some_iff.1 hi
  have hidx : (content.findIdx? fun s => s = "") = some i := by
    rw [Array.findIdx?_eq_some_iff_getElem]
    refine ⟨hlt, by simpa using hs, fun j hj => ?_⟩
    have hne := hfirst j hj
    rw [Array.getElem?_eq_getElem (Nat.lt_trans hj hlt)] at hne
    simpa using hne
  rw [checkContent, hidx]

/-- Among the positions of empty symbols there is a first one. -/
theorem exists_first_empty (h : "" ∈ content) :
    ∃ i : Nat, content[i]? = some "" ∧ ∀ j < i, content[j]? ≠ some "" := by
  have hex : ∃ i : Nat, content[i]? = some "" := Array.mem_iff_getElem?.1 h
  exact ⟨Nat.find hex, Nat.find_spec hex, fun j hj => Nat.find_min hex hj⟩

/-- Control and settings are all that a machine keeps from its past, and no call changes them. -/
theorem reset_after (hcreate : create control settings content₀ = .ok m₀) (calls : List Call)
    (hcontent : ∀ s ∈ content, s ≠ "") :
    (m₀.after calls).reset content = .ok (fresh control settings content) := by
  obtain ⟨-, -, -, rfl⟩ := create_eq_ok_iff.1 hcreate
  rw [reset_eq_ok _ content hcontent, control_after, settings_after]
  rfl

/-- A reset in the middle of anything succeeds with a content that is in order, and leaves the
fresh machine. -/
theorem perform_reset_after (hcreate : create control settings content₀ = .ok m₀)
    (calls : List Call) (hcontent : ∀ s ∈ content, s ≠ "") :
    (m₀.after calls).perform (.reset content) =
      (.ok .done, #[], fresh control settings content) := by
  rw [perform, reset_after hcreate calls hcontent]

/-- A refused reset changes nothing. -/
theorem perform_reset_eq_error (m : Machine) {i : Nat} (hi : content[i]? = some "")
    (hfirst : ∀ j < i, content[j]? ≠ some "") :
    m.perform (.reset content) = (.error (.emptyTapeSymbol i), #[], m) := by
  have hreset : m.reset content = .error (.emptyTapeSymbol i) := by
    rw [reset, checkContent_eq_error hi hfirst]
    rfl
  rw [perform, hreset]

/-- The content alone decides whether a second machine can be created like the first. -/
theorem create_of_create (hcreate : create control settings content₀ = .ok m₀)
    (hcontent : ∀ s ∈ content, s ≠ "") :
    create control settings content = .ok (fresh control settings content) := by
  obtain ⟨hcontrol, hsettings, -, -⟩ := create_eq_ok_iff.1 hcreate
  exact create_eq_ok_iff.2 ⟨hcontrol, hsettings, checkContent_eq_ok_iff.2 hcontent, rfl⟩

/-- Nothing of the calls before a reset is left. -/
theorem after_append_reset (hcreate : create control settings content₀ = .ok m₀)
    (calls : List Call) (hcontent : ∀ s ∈ content, s ≠ "") :
    m₀.after (calls ++ [.reset content]) = fresh control settings content := by
  unfold after
  rw [List.foldl_append]
  show ((m₀.after calls).perform (.reset content)).2.2 = _
  rw [perform_reset_after hcreate calls hcontent]

/-- After any history a content without empty symbols makes the machine equal to a new one for that
content, so that a run answers, and leaves the machine, as if there had been no history. A content
with an empty symbol is refused for the first of them, and changes nothing. -/
theorem reset_forgets (hcreate : create control settings content₀ = .ok m₀) (calls : List Call)
    (content : Array Symbol) :
    ((∀ s ∈ content, s ≠ "") → ∃ m, create control settings content = .ok m ∧
      (m₀.after calls).perform (.reset content) = (.ok .done, #[], m)) ∧
    ("" ∈ content → ∃ i : Nat, content[i]? = some "" ∧ (∀ j < i, content[j]? ≠ some "") ∧
      (Fault.emptyTapeSymbol i).kind = .invalidTape ∧
      (m₀.after calls).perform (.reset content) =
        (.error (.emptyTapeSymbol i), #[], m₀.after calls)) ∧
    ((∀ s ∈ content, s ≠ "") → ∀ (content₁ : Array Symbol) (m₁ : Machine) (calls₁ : List Call),
      create control settings content₁ = .ok m₁ →
      (m₁.after (calls₁ ++ [.reset content])).perform .run =
        (m₀.after (calls ++ [.reset content])).perform .run) := by
  refine ⟨fun hcontent => ?_, fun hempty => ?_, fun hcontent content₁ m₁ calls₁ hcreate₁ => ?_⟩
  · exact ⟨_, create_of_create hcreate hcontent, perform_reset_after hcreate calls hcontent⟩
  · obtain ⟨i, hi, hfirst⟩ := exists_first_empty hempty
    exact ⟨i, hi, hfirst, rfl, perform_reset_eq_error _ hi hfirst⟩
  · rw [after_append_reset hcreate₁ calls₁ hcontent, after_append_reset hcreate calls hcontent]

/-- The machine has run to its end and has failed to read two symbols before it gets a new content.
-/
theorem reset_forgets_failed_reads : ∃ m₀ m, create .oneStep {} #["x"] = .ok m₀ ∧
    create .oneStep {} #["z", "x"] = .ok m ∧
    (m₀.after [.run, .read "q", .step]).perform (.reset #["z", "x"]) = (.ok .done, #[], m) ∧
    (m₀.after [.run, .read "q", .step]).perform (.reset #["z", ""]) =
      (.error (.emptyTapeSymbol 1), #[], m₀.after [.run, .read "q", .step]) := by
  have hcreate : create .oneStep {} #["x"] = .ok (fresh .oneStep {} #["x"]) :=
    create_eq_ok (by decide) (by decide) (by decide) (by decide) (by decide) (by decide)
  obtain ⟨hok, -⟩ := reset_forgets hcreate [.run, .read "q", .step] #["z", "x"]
  obtain ⟨-, herror, -⟩ := reset_forgets hcreate [.run, .read "q", .step] #["z", ""]
  obtain ⟨m, hm, hreset⟩ := hok (by decide)
  obtain ⟨i, hi, -, -, hfail⟩ := herror (by simp)
  have hi : i = 1 := by
    match i with
    | 0 => simp at hi
    | 1 => rfl
    | i + 2 => simp at hi
  rw [hi] at hfail
  exact ⟨_, m, hcreate, hm, hreset, hfail⟩

end SingleTape.Machine
