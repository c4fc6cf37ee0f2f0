import SingleTape.Json.Codec
import SingleTape.Proofs.Json.Record

/-!
# From JSON and back

Transitions and settings are written as records and read back from them. A transition is also read
from other texts, but from none in which the symbol to be written is empty.
-/

namespace SingleTape

open Json
open Json.Value (Records HasField namesOf)

theorem Json.decode?_eq_some_iff {α : Type} {ofJson? : Value → Option α} {text : String} {x : α} :
    decode? ofJson? text = some x ↔ ∃ v, Value.parse? text = some v ∧ ofJson? v = some x :=
  Option.bind_eq_some_iff

/-! ## Directions and handles -/

theorem Direction.ofJson?_name (d : Direction) : ofJson? (.string (piecesOf d.name)) = some d := by
  show (Value.piecesText? (piecesOf d.name) >>= _) = _
  rw [Value.piecesText?_piecesOf]
  cases d <;> rfl

theorem StateId.ofJson?_eq_some_iff {v : Value} {id : StateId} :
    ofJson? v = some id ↔ v.word? = some id.index := by
  rw [ofJson?, Option.map_eq_some_iff]
  constructor
  · rintro ⟨n, hn, rfl⟩
    exact hn
  · exact fun h => ⟨id.index, h, rfl⟩

theorem Json.Value.lt_of_word? {v : Value} {n : Nat} (h : v.word? = some n) :
    n < Text.wordLimit := by
  cases v with
  | number text =>
    change (if _ then some _ else none) = some n at h
    split at h
    · rename_i hword
      cases h
      exact hword.2.2
    · cases h
  | _ => cases h

/-! ## Transitions -/

namespace Transition

def parts (target write direction : Value) : List (String × Value) :=
  [("target", target), ("write", write), ("direction", direction)]

theorem nodup_parts (target write direction : Value) :
    (namesOf (parts target write direction)).Nodup := by
  show ["target", "write", "direction"].Nodup
  decide

/-- The value is that of a record whose parts are those of the transition. -/
inductive SpelledBy (x : Transition) : Value → Prop
  | record {v target write direction : Value} (hrecord : Records (parts target write direction) v)
      (htarget : target.word? = some x.target.index) (hwrite : write.text? = some x.write)
      (hdirection : Direction.ofJson? direction = some x.direction) : SpelledBy x v

/-- Parts make the transition that has them, and only with a symbol to write. -/
theorem toOption_ofParts_eq_some_iff {target : StateId} {write : Symbol} {direction : Direction}
    {x : Transition} : (ofParts target write direction).toOption = some x ↔
      target = x.target ∧ write = x.write ∧ direction = x.direction := by
  unfold ofParts
  split
  case isTrue hempty =>
    refine iff_of_false (fun h => nomatch h) fun h => x.write_ne_empty ?_
    rw [← h.2.1, hempty]
  case isFalse =>
    constructor
    · rintro ⟨⟩
      exact ⟨rfl, rfl, rfl⟩
    · rintro ⟨rfl, rfl, rfl⟩
      rfl

/-- A value is read as a transition exactly when it spells it. -/
theorem ofJson?_eq_some_iff {v : Value} {x : Transition} :
    ofJson? v = some x ↔ x.SpelledBy v := by
  constructor
  · intro h
    -- The record first, and then its three parts one by one.
    obtain ⟨values, hrecord, h⟩ := Option.bind_eq_some_iff.mp h
    split at h
    case h_1 target write direction =>
      obtain ⟨id, htarget, h⟩ := Option.bind_eq_some_iff.mp h
      obtain ⟨symbol, hwrite, h⟩ := Option.bind_eq_some_iff.mp h
      obtain ⟨d, hdirection, h⟩ := Option.bind_eq_some_iff.mp h
      obtain ⟨rfl, rfl, rfl⟩ := toOption_ofParts_eq_some_iff.mp h
      have hparts := (Value.record?_eq_some_iff (nodup_parts target write direction)).mp hrecord
      exact .record hparts (StateId.ofJson?_eq_some_iff.mp htarget) hwrite hdirection
    case h_2 => cases h
  · rintro ⟨hrecord, htarget, hwrite, hdirection⟩
    have hvalues := (Value.record?_eq_some_iff (nodup_parts _ _ _)).mpr hrecord
    refine Option.bind_eq_some_iff.mpr ⟨_, hvalues, ?_⟩
    refine Option.bind_eq_some_iff.mpr ⟨_, StateId.ofJson?_eq_some_iff.mpr htarget, ?_⟩
    refine Option.bind_eq_some_iff.mpr ⟨_, hwrite, ?_⟩
    refine Option.bind_eq_some_iff.mpr ⟨_, hdirection, ?_⟩
    exact toOption_ofParts_eq_some_iff.mpr ⟨rfl, rfl, rfl⟩

/-- A written transition spells itself. -/
theorem exists_spelledBy (x : Transition) (hx : x.target.index < Text.wordLimit) :
    ∃ v, Value.parse? x.toJson = some v ∧ x.SpelledBy v := by
  have hparts : List.Forall₂ WritesPart
      [("target", x.target.toJson), ("write", Json.string x.write),
        ("direction", x.direction.toJson)]
      (parts (.number (Nat.toDigits 10 x.target.index)) (.string (piecesOf x.write))
        (.string (piecesOf x.direction.name))) :=
    .cons ⟨rfl, writes_number x.target.index⟩ <| .cons ⟨rfl, writes_string x.write⟩ <|
      .cons ⟨rfl, writes_string x.direction.name⟩ .nil
  obtain ⟨v, hparse, hrecord⟩ := exists_records hparts
  have hwrite := Value.piecesText?_piecesOf x.write
  exact ⟨v, hparse, .record hrecord (word?_number hx) hwrite (Direction.ofJson?_name x.direction)⟩

/-- What is written for a transition is read back as it was. -/
theorem decode?_toJson {x : Transition} (hx : x.target.index < Text.wordLimit) :
    decode? ofJson? x.toJson = some x := by
  obtain ⟨v, hparse, hspelled⟩ := x.exists_spelledBy hx
  exact decode?_eq_some_iff.mpr ⟨v, hparse, ofJson?_eq_some_iff.mpr hspelled⟩

theorem SpelledBy.target_lt {x : Transition} {v : Value} (h : x.SpelledBy v) :
    x.target.index < Text.wordLimit := by
  cases h with
  | record _ htarget => exact Value.lt_of_word? htarget

/-- Also a record in which the symbol stands twice, or in an array that is too long, is refused. -/
theorem ofJson?_eq_none_of_empty_write {v w : Value}
    (hw : HasField ["target", "write", "direction"] "write" w v) (hempty : w.text? = some "") :
    ofJson? v = none := by
  refine Option.eq_none_iff_forall_ne_some.mpr fun x hx => ?_
  cases ofJson?_eq_some_iff.mp hx with
  | @record target write direction hrecord _ hwrite =>
    have hname : "write" ∈ ["target", "write", "direction"] := by decide
    have hmem := hrecord.mem_of_hasField hw hname
    have heq : w = write := by simpa [parts] using hmem
    rw [heq, hwrite] at hempty
    exact x.write_ne_empty (Option.some.inj hempty)

end Transition

/-! ## Settings -/

namespace Settings

def parts (blank budget : Value) : List (String × Value) :=
  [("empty_symbol", blank), ("loop_budget", budget)]

theorem nodup_parts (blank budget : Value) : (namesOf (parts blank budget)).Nodup := by
  show ["empty_symbol", "loop_budget"].Nodup
  decide

/-- What is written for settings is read back as they were. -/
theorem decode?_toJson {s : Settings} (hs : s.budget < Text.wordLimit) :
    decode? ofJson? s.toJson = some s := by
  have hparts : List.Forall₂ WritesPart
      [("empty_symbol", Json.string s.blank), ("loop_budget", Json.number s.budget)]
      (parts (.string (piecesOf s.blank)) (.number (Nat.toDigits 10 s.budget))) :=
    .cons ⟨rfl, writes_string s.blank⟩ <| .cons ⟨rfl, writes_number s.budget⟩ .nil
  obtain ⟨v, hparse, hrecord⟩ := exists_records hparts
  have hvalues := (Value.record?_eq_some_iff (nodup_parts _ _)).mpr hrecord
  refine decode?_eq_some_iff.mpr ⟨v, hparse, Option.bind_eq_some_iff.mpr ⟨_, hvalues, ?_⟩⟩
  refine Option.bind_eq_some_iff.mpr ⟨_, Value.piecesText?_piecesOf s.blank, ?_⟩
  exact Option.bind_eq_some_iff.mpr ⟨_, word?_number hs, rfl⟩

end Settings

/-! ## Round trip -/

/-- Transitions and settings whose numbers fit a machine word are what their JSON texts are read as.
A text is read as a transition just if it spells its parts, in whatever order and with whatever
else; the transition then writes something, and its own text is read as the same transition. A text
that gives the empty text as the symbol to be written is refused, whatever the spelling. -/
theorem json_round_trip :
    (∀ x : Transition, x.target.index < Text.wordLimit →
      decode? Transition.ofJson? x.toJson = some x) ∧
    (∀ s : Settings, s.budget < Text.wordLimit → decode? Settings.ofJson? s.toJson = some s) ∧
    (∀ text (x : Transition), decode? Transition.ofJson? text = some x ↔
      ∃ v, Value.parse? text = some v ∧ x.SpelledBy v) ∧
    (∀ text x, decode? Transition.ofJson? text = some x →
      x.write ≠ "" ∧ decode? Transition.ofJson? x.toJson = some x) ∧
    ∀ text v w, Value.parse? text = some v →
      HasField ["target", "write", "direction"] "write" w v → w.text? = some "" →
      decode? Transition.ofJson? text = none := by
  -- Decoding is parsing and spelling, and the rest follows from that.
  have hspelled : ∀ text (x : Transition), decode? Transition.ofJson? text = some x ↔
      ∃ v, Value.parse? text = some v ∧ x.SpelledBy v := by
    intro text x
    rw [decode?_eq_some_iff]
    exact exists_congr fun v => and_congr_right fun _ => Transition.ofJson?_eq_some_iff
  refine ⟨fun x => Transition.decode?_toJson, fun s => Settings.decode?_toJson, hspelled,
    fun text x hx => ?_, fun text v w hparse hw hempty => ?_⟩
  · obtain ⟨v, -, hv⟩ := (hspelled text x).mp hx
    exact ⟨x.write_ne_empty, Transition.decode?_toJson hv.target_lt⟩
  · rw [decode?, hparse]
    exact Transition.ofJson?_eq_none_of_empty_write hw hempty

theorem json_round_trip_of_escapes :
    (let x : Transition := ⟨⟨Text.wordLimit - 1⟩, "\"\\\n\x01😀", .left, by decide⟩;
      x.target.index < Text.wordLimit ∧ decode? Transition.ofJson? x.toJson = some x) ∧
    (let s : Settings := ⟨"", Text.wordLimit - 1⟩;
      s.budget < Text.wordLimit ∧ decode? Settings.ofJson? s.toJson = some s) ∧
    (let text := "\x7b\"x\":[],\"direction\":\x7b\"Right\":null\x7d,\"wri\\u0074e\":" ++
        "\"\\ud83d\\ude00\", \"target\":3\x7d";
      let x : Transition := ⟨⟨3⟩, "😀", .right, by decide⟩;
      decode? Transition.ofJson? text = some x ∧ x.write ≠ "" ∧
        decode? Transition.ofJson? x.toJson = some x) ∧
    (let v := Value.array [.number ['3'], .string [], .string (piecesOf "Left")];
      Value.parse? "[3,\"\",\"Left\"]" = some v ∧
        HasField ["target", "write", "direction"] "write" (.string []) v ∧
        decode? Transition.ofJson? "[3,\"\",\"Left\"]" = none) := by
  obtain ⟨htransition, hsettings, -, hread, hempty⟩ := json_round_trip
  refine ⟨⟨by decide, htransition _ (by decide)⟩, ⟨by decide, hsettings _ (by decide)⟩, ?_, ?_⟩
  · have hdecoded : decode? Transition.ofJson?
        ("\x7b\"x\":[],\"direction\":\x7b\"Right\":null\x7d,\"wri\\u0074e\":" ++
          "\"\\ud83d\\ude00\", \"target\":3\x7d") = some ⟨⟨3⟩, "😀", .right, by decide⟩ := by
      decide +kernel
    exact ⟨hdecoded, hread _ _ hdecoded⟩
  · have htokens : tokens? "[3,\"\",\"Left\"]".toList = some [.openBracket, .number ['3'], .comma,
        .string [], .comma, .string (piecesOf "Left"), .closeBracket] := by decide +kernel
    have hparse : Value.parse? "[3,\"\",\"Left\"]" = some (.array [.number ['3'], .string [],
        .string (piecesOf "Left")]) := by
      rw [Value.parse?, htokens]
      rfl
    have hwrite : HasField ["target", "write", "direction"] "write" (.string [])
        (.array [.number ['3'], .string [], .string (piecesOf "Left")]) := .array rfl
    exact ⟨hparse, hwrite, hempty _ _ _ hparse hwrite rfl⟩

end SingleTape
