import SingleTape.Json.Writer

/-!
# JSON on one line

A line feed in a string is escaped and nowhere else is one written, so each JSON text fits a line of
its own.
-/

namespace SingleTape.Json

def OneLine (text : String) : Prop := '\n' ∉ text.toList

instance (text : String) : Decidable (OneLine text) :=
  inferInstanceAs (Decidable ('\n' ∉ text.toList))

theorem OneLine.append {s t : String} (hs : OneLine s) (ht : OneLine t) : OneLine (s ++ t) := by
  unfold OneLine
  rw [String.toList_append, List.mem_append]
  exact not_or.mpr ⟨hs, ht⟩

theorem hexDigit_ne_lineFeed (n : Nat) : hexDigit n ≠ '\n' := by
  have hdigits : '\n' ∉ "0123456789abcdef".toList := by decide
  unfold hexDigit
  rw [List.getD_eq_getElem?_getD]
  cases h : "0123456789abcdef".toList[n]? with
  | none => decide
  | some c =>
    rintro rfl
    exact hdigits (List.mem_of_getElem? h)

/-- No character is written as a line feed, not even a line feed. -/
theorem lineFeed_notMem_escapeChar (c : Char) : '\n' ∉ escapeChar c := by
  unfold escapeChar
  split
  case h_8 hn _ _ =>
    split
    · simp only [List.mem_cons, List.not_mem_nil, or_false, not_or]
      exact ⟨by decide, by decide, by decide, by decide, (hexDigit_ne_lineFeed _).symm,
        (hexDigit_ne_lineFeed _).symm⟩
    · rw [List.mem_singleton]
      exact fun h => hn h.symm
  all_goals decide

theorem oneLine_string (s : String) : OneLine (string s) := by
  unfold OneLine string
  rw [String.toList_ofList]
  simp only [List.mem_cons, List.mem_append, List.mem_flatMap, List.not_mem_nil, or_false, not_or]
  exact ⟨⟨by decide, fun ⟨c, _, hc⟩ => lineFeed_notMem_escapeChar c hc⟩, by decide⟩

theorem oneLine_number (n : Nat) : OneLine (number n) := by
  intro h
  have hdigit := Nat.isDigit_of_mem_toDigits (b := 10) (n := n) (by decide) (by decide)
    (show '\n' ∈ Nat.toDigits 10 n by simpa [number] using h)
  revert hdigit
  decide

theorem oneLine_bool (b : Bool) : OneLine (bool b) := by
  cases b with
  | false => decide
  | true => decide

theorem oneLine_intercalate {texts : List String} (h : ∀ text ∈ texts, OneLine text) :
    OneLine (",".intercalate texts) := by
  induction texts with
  | nil => decide
  | cons s texts ih =>
    have hs := h s List.mem_cons_self
    cases texts with
    | nil => rwa [String.intercalate_singleton]
    | cons t texts =>
      rw [String.intercalate_cons_cons]
      exact (hs.append (by decide)).append
        (ih fun text htext => h text (List.mem_cons_of_mem s htext))

/-- An object takes one line when all its values do. -/
theorem oneLine_object {fields : List (String × String)} (h : ∀ f ∈ fields, OneLine f.2) :
    OneLine (object fields) := by
  refine (OneLine.append (by decide) (oneLine_intercalate fun text htext => ?_)).append (by decide)
  obtain ⟨f, hf, rfl⟩ := List.mem_map.mp htext
  exact ((oneLine_string f.1).append (by decide)).append (h f hf)

end SingleTape.Json
