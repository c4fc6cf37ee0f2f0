import SingleTape.Batch
import SingleTape.Proofs.Json.OneLine
import SingleTape.Proofs.Json.Record

/-!
# Lines for reports

A line of plain text has the word and the verdict. A line of JSON is an object with all four parts
of the report, and each of them can be read from it again.
-/

namespace SingleTape.Report

open Json

def outcomeNames : List (Outcome × String) :=
  [(.accepted, "Accepted"), (.rejected, "Rejected"), (.budgetExhausted, "BudgetExhausted")]

/-- The line tells the report, in JSON or in plain text. In JSON its text is given but for the
quoting of the word, and reading it gives back the parts of the report in this order. -/
inductive Shows (r : Report) : Bool → String → Prop
  | plain : Shows r false (r.word ++ ", " ++ if r.accepted then "true" else "false")
  | json {line name : String} {fields : List (List Piece × Value)} {word steps : Value}
      (hline : line = "\x7b\"word\":" ++ Json.string r.word ++ ",\"accepted\":" ++
        (if r.accepted then "true" else "false") ++ ",\"outcome\":\"" ++ name ++
        "\",\"steps\":" ++ toString r.steps ++ "\x7d")
      (hname : (r.outcome, name) ∈ outcomeNames)
      (hparse : Value.parse? line = some (.object fields))
      (hfields : List.Forall₂ Value.Named fields [("word", word), ("accepted", .bool r.accepted),
        ("outcome", .string (piecesOf name)), ("steps", steps)])
      (hword : word.text? = some r.word) (hsteps : steps.word? = some r.steps) : Shows r true line

theorem mem_outcomeNames (o : Outcome) : (o, o.name) ∈ outcomeNames := by
  cases o <;> decide

theorem toJson_eq (r : Report) : r.toJson = "\x7b\"word\":" ++ Json.string r.word ++
    ",\"accepted\":" ++ (if r.accepted then "true" else "false") ++ ",\"outcome\":\"" ++
    r.outcome.name ++ "\",\"steps\":" ++ toString r.steps ++ "\x7d" := by
  have hquoted : ∀ o : Outcome, o.toJson = "\"" ++ o.name ++ "\"" := by
    intro o
    cases o <;> decide
  obtain ⟨hw, ha, ho, hs⟩ : Json.string "word" = "\"word\"" ∧
      Json.string "accepted" = "\"accepted\"" ∧ Json.string "outcome" = "\"outcome\"" ∧
      Json.string "steps" = "\"steps\"" := by decide
  simp only [toJson, object, List.map_cons, List.map_nil, String.intercalate_cons_cons,
    String.intercalate_singleton, hw, ha, ho, hs, hquoted, Json.bool, Json.number]
  apply String.toList_inj.mp
  simp only [String.toList_append, List.append_assoc]
  rfl

/-- The line for a word of a list tells the report, if its steps can be read as a machine word. -/
theorem shows_line {r : Report} (hsteps : r.steps < Text.wordLimit) (json : Bool) :
    r.Shows json (r.line json) := by
  cases json with
  | false => exact .plain
  | true =>
    have hparts : List.Forall₂ WritesPart
        [("word", Json.string r.word), ("accepted", Json.bool r.accepted),
          ("outcome", r.outcome.toJson), ("steps", Json.number r.steps)]
        [("word", .string (piecesOf r.word)), ("accepted", .bool r.accepted),
          ("outcome", .string (piecesOf r.outcome.name)),
          ("steps", .number (Nat.toDigits 10 r.steps))] :=
      .cons ⟨rfl, writes_string r.word⟩ <| .cons ⟨rfl, writes_bool r.accepted⟩ <|
        .cons ⟨rfl, writes_string r.outcome.name⟩ <| .cons ⟨rfl, writes_number r.steps⟩ .nil
    obtain ⟨fields, hparse, hfields⟩ := exists_named hparts
    exact .json r.toJson_eq (mem_outcomeNames r.outcome) hparse hfields
      (Value.piecesText?_piecesOf r.word) (word?_number hsteps)

/-- A report of a word without line feeds is one line, written either way. -/
theorem oneLine_line {r : Report} (hword : OneLine r.word) (json : Bool) :
    OneLine (r.line json) := by
  cases json with
  | true =>
    apply oneLine_object
    simp only [List.forall_mem_cons, List.not_mem_nil, false_implies, implies_true, and_true]
    exact ⟨oneLine_string _, oneLine_bool _, oneLine_string _, oneLine_number _⟩
  | false => exact (hword.append (by decide)).append (oneLine_bool _)

end SingleTape.Report
