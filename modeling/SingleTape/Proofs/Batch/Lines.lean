import Mathlib.Data.List.DropRight
import SingleTape.Batch

/-!
# Lines of bytes

A batch cuts its input at the line feeds before it looks whether a line is text. Cut this way, bytes
and text agree: no part of the encoding of another character is a line feed or a carriage return.
-/

namespace SingleTape.Batch

def bytesOf (text : String) : List UInt8 := text.toUTF8.data.toList

def dropEmptyLast (all : List (List UInt8)) : List (List UInt8) :=
  if all.getLast? = some [] then all.dropLast else all

def pieces (bytes : List UInt8) : List (List UInt8) := dropEmptyLast (bytes.splitOn lineFeed)

/-- The bytes of a line are a text, and the word is that text without the carriage returns at its
end. -/
def Spells (line : List UInt8) (word : String) : Prop :=
  ∃ text : String, bytesOf text = line ∧ word.toList = text.toList.rdropWhile (· = '\r')

/-! ## Cutting -/

/-- Only the last piece is ever dropped. -/
theorem dropEmptyLast_cons (piece : List UInt8) {all : List (List UInt8)} (h : all ≠ []) :
    dropEmptyLast (piece :: all) = piece :: dropEmptyLast all := by
  unfold dropEmptyLast
  rw [List.getLast?_cons_of_ne_nil h, List.dropLast_cons_of_ne_nil h]
  split <;> rfl

/-- The bytes that were seen of an unfinished line stand in front of the first piece. -/
theorem linesFrom_eq (unfinished bytes : List UInt8) :
    linesFrom unfinished bytes =
      dropEmptyLast (bytes.splitOnPPrepend (· == lineFeed) unfinished) := by
  induction bytes generalizing unfinished with
  | nil => simp [linesFrom, dropEmptyLast]
  | cons b bytes ih =>
    rw [linesFrom]
    by_cases hb : b = lineFeed
    · rw [if_pos hb, List.splitOnPPrepend_cons_pos (p := (· == lineFeed)) (beq_iff_eq.mpr hb),
        dropEmptyLast_cons _ (List.splitOnP_ne_nil _ _), ih]
      rfl
    · rw [if_neg hb,
        List.splitOnPPrepend_cons_neg (p := (· == lineFeed)) (beq_eq_false_iff_ne.mpr hb), ih]

/-- The lines read one byte after the other are the pieces between the line feeds. -/
theorem lines_eq_pieces (bytes : List UInt8) : lines bytes = pieces bytes :=
  linesFrom_eq [] bytes

example : lines [97, 10, 13, 10, 10, 98, 10] = [[97], [13], [], [98]] := by decide

/-- What comes behind a line feed is cut on its own. -/
theorem linesFrom_append_lineFeed (unfinished u v : List UInt8) :
    linesFrom unfinished (u ++ lineFeed :: v) =
      linesFrom unfinished (u ++ [lineFeed]) ++ linesFrom [] v := by
  induction u generalizing unfinished with
  | nil => simp [linesFrom]
  | cons b u ih =>
    rw [List.cons_append, List.cons_append, linesFrom, linesFrom]
    by_cases hb : b = lineFeed
    · rw [if_pos hb, if_pos hb, ih, List.cons_append]
    · rw [if_neg hb, if_neg hb, ih]

/-- Behind a line feed a new line begins. -/
theorem pieces_append {u : List UInt8} (hu : u.getLast? = some lineFeed) (v : List UInt8) :
    pieces (u ++ v) = pieces u ++ pieces v := by
  obtain ⟨u, rfl⟩ := List.getLast?_eq_some_iff.mp hu
  rw [← lines_eq_pieces, ← lines_eq_pieces, ← lines_eq_pieces, List.append_assoc]
  exact linesFrom_append_lineFeed [] u v

/-- No line holds a line feed. -/
theorem lineFeed_notMem_linesFrom {unfinished bytes line : List UInt8}
    (hunfinished : lineFeed ∉ unfinished) (hline : line ∈ linesFrom unfinished bytes) :
    lineFeed ∉ line := by
  -- The induction is on the bytes, with an unfinished line that holds no line feed.
  induction bytes generalizing unfinished with
  | nil =>
    unfold linesFrom at hline
    split at hline
    · cases hline
    · rw [List.mem_singleton.mp hline, List.mem_reverse]
      exact hunfinished
  | cons b bytes ih =>
    unfold linesFrom at hline
    split at hline
    · rcases List.mem_cons.mp hline with rfl | hline
      · rwa [List.mem_reverse]
      · exact ih List.not_mem_nil hline
    · rename_i hb
      refine ih (fun hmem => ?_) hline
      rcases List.mem_cons.mp hmem with h | h
      · exact hb h.symm
      · exact hunfinished h

theorem lineFeed_notMem_of_mem_pieces {bytes line : List UInt8} (h : line ∈ pieces bytes) :
    lineFeed ∉ line := by
  rw [← lines_eq_pieces] at h
  exact lineFeed_notMem_linesFrom List.not_mem_nil h

/-! ## Text -/

theorem bytesOf_eq_flatMap (text : String) :
    bytesOf text = text.toList.flatMap String.utf8EncodeChar := by
  rw [bytesOf, String.toUTF8_eq_toByteArray, ← String.utf8Encode_toList, List.utf8Encode,
    List.data_toByteArray]

/-- Bytes read as a text exactly when they are the bytes of it. -/
theorem fromUTF8?_eq_some_iff {bytes : List UInt8} {text : String} :
    String.fromUTF8? ⟨bytes.toArray⟩ = some text ↔ bytesOf text = bytes := by
  unfold String.fromUTF8? bytesOf
  constructor
  · intro h
    split at h
    · cases h
      rfl
    · cases h
  · rintro rfl
    exact dif_pos text.isValidUTF8

theorem bytesOf_injective : Function.Injective bytesOf := by
  intro a b h
  exact Option.some.inj ((fromUTF8?_eq_some_iff.mpr h).symm.trans (fromUTF8?_eq_some_iff.mpr rfl))

theorem utf8EncodeChar_return : String.utf8EncodeChar '\r' = [carriageReturn] := by decide

/-- Only the first byte of a character can be below 128, so a last byte that is a carriage return is
all of the character. -/
theorem getLast_utf8EncodeChar_ne {c : Char} (hc : c ≠ '\r') :
    (String.utf8EncodeChar c).getLast String.utf8EncodeChar_ne_nil ≠ carriageReturn := by
  intro hlast
  have hlt : (String.utf8EncodeChar c).length - 1 < (String.utf8EncodeChar c).length :=
    Nat.sub_one_lt (List.length_pos_iff.mpr String.utf8EncodeChar_ne_nil).ne'
  have hfirst : (String.utf8EncodeChar c).length - 1 = 0 := by
    rw [← @UInt8.isUTF8FirstByte_getElem_utf8EncodeChar c _ hlt,
      ← List.getLast_eq_getElem String.utf8EncodeChar_ne_nil, hlast]
    decide
  have hsize : c.utf8Size = 1 := by
    have := c.utf8Size_pos
    rw [String.length_utf8EncodeChar] at hfirst
    omega
  simp only [String.utf8EncodeChar_eq_singleton hsize, List.getLast_singleton] at hlast
  have hval : c.val.toNat < 128 := Nat.lt_succ_of_le (Char.utf8Size_eq_one_iff.mp hsize)
  have hbyte : c.val.toNat % 256 = 13 := congrArg UInt8.toNat hlast
  rw [Nat.mod_eq_of_lt (by omega)] at hbyte
  exact hc (Char.ext (UInt32.toNat_inj.mp hbyte))

/-- A carriage return at the end is the same among the bytes and among the characters. -/
theorem rdropWhile_bytesOf (cs : List Char) :
    (cs.flatMap String.utf8EncodeChar).rdropWhile (· = carriageReturn) =
      (cs.rdropWhile (· = '\r')).flatMap String.utf8EncodeChar := by
  induction cs using List.reverseRecOn with
  | nil => rfl
  | append_singleton cs c ih =>
    by_cases hc : c = '\r'
    · subst hc
      rw [List.flatMap_append, List.flatMap_singleton, utf8EncodeChar_return,
        List.rdropWhile_concat_pos _ _ _ (by simp), List.rdropWhile_concat_pos _ _ _ (by simp), ih]
    · rw [List.rdropWhile_concat_neg _ _ _ (by simpa using hc), List.rdropWhile_eq_self_iff]
      intro hne
      simpa [List.getLast_append_of_ne_nil] using getLast_utf8EncodeChar_ne hc

/-- Returns at the end of a line never spoil its text. -/
theorem exists_text_of_rdropWhile {line : List UInt8} {word : String}
    (h : bytesOf word = line.rdropWhile (· = carriageReturn)) : ∃ text, bytesOf text = line := by
  have hreturns : line.rtakeWhile (· = carriageReturn) =
      List.replicate (line.rtakeWhile (· = carriageReturn)).length carriageReturn :=
    List.eq_replicate_iff.mpr ⟨rfl, fun b hb => by simpa using List.mem_rtakeWhile_imp hb⟩
  refine ⟨.ofList (word.toList ++
    List.replicate (line.rtakeWhile (· = carriageReturn)).length '\r'), ?_⟩
  rw [bytesOf_eq_flatMap] at h ⊢
  rw [String.toList_ofList, List.flatMap_append, h, List.flatMap_replicate, utf8EncodeChar_return,
    List.flatten_replicate_singleton, ← hreturns, List.rdropWhile_append_rtakeWhile]

/-- The word read off a line is the one that the line spells. -/
theorem wordOfLine?_eq_some_iff {line : List UInt8} {word : String} :
    wordOfLine? line = some word ↔ Spells line word := by
  rw [wordOfLine?, fromUTF8?_eq_some_iff, Spells]
  change bytesOf word = line.rdropWhile (· = carriageReturn) ↔ _
  constructor
  · intro h
    obtain ⟨text, rfl⟩ := exists_text_of_rdropWhile h
    refine ⟨text, rfl, ?_⟩
    rw [bytesOf_eq_flatMap text, rdropWhile_bytesOf] at h
    have hword : word = .ofList (text.toList.rdropWhile (· = '\r')) := by
      apply bytesOf_injective
      rw [h, bytesOf_eq_flatMap, String.toList_ofList]
    rw [hword, String.toList_ofList]
  · rintro ⟨text, rfl, hword⟩
    rw [bytesOf_eq_flatMap, bytesOf_eq_flatMap, hword, rdropWhile_bytesOf]

/-- A word has no line feed unless its line has. -/
theorem Spells.notMem {line : List UInt8} {word : String} (h : Spells line word)
    (hline : lineFeed ∉ line) : '\n' ∉ word.toList := by
  obtain ⟨text, rfl, hword⟩ := h
  intro hmem
  rw [hword] at hmem
  apply hline
  rw [bytesOf_eq_flatMap, List.mem_flatMap]
  exact ⟨'\n', (List.rdropWhile_prefix _ _).subset hmem, by decide⟩

theorem Spells.unique {line : List UInt8} {word word' : String} (h : Spells line word)
    (h' : Spells line word') : word = word' :=
  Option.some.inj ((wordOfLine?_eq_some_iff.mpr h).symm.trans (wordOfLine?_eq_some_iff.mpr h'))

/-- A line is no word exactly when it is no text at all. -/
theorem wordOfLine?_eq_none_iff {line : List UInt8} :
    wordOfLine? line = none ↔ ∀ text, bytesOf text ≠ line := by
  rw [Option.eq_none_iff_forall_ne_some]
  constructor
  · intro h text htext
    exact h _ (wordOfLine?_eq_some_iff.mpr ⟨text, htext, String.toList_ofList⟩)
  · intro h word hword
    obtain ⟨text, htext, -⟩ := wordOfLine?_eq_some_iff.mp hword
    exact h text htext

end SingleTape.Batch
