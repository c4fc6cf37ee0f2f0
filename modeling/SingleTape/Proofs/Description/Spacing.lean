import Mathlib.Data.List.Induction
import Mathlib.Logic.Relation
import SingleTape.Proofs.Description.Parsing

/-!
# Blanks that do not matter

Blanks at the end of a line and lines of blanks do not change what a text describes. For this a text
is looked at as the list of its rows, the lines that are not made of blanks alone: such blanks make
a row longer and change nothing else. There is one line on which a blank at the end does matter, a
state line with the word that begins an alphabet line: with a blank behind it, it begins one.
-/

namespace SingleTape

/-- The description with all its transitions on the first line. -/
def Description.onOneLine (d : Description) : Description :=
  { d with transitions := d.transitions.map fun t => { t with line := 1 } }

namespace Description

/-- What stands above a place at which a line begins: nothing, or lines that have ended. -/
def AboveLine (text : List Char) : Prop := ∀ c ∈ text.getLast?, isLineBreak c = true

/-- What stands below a place at which a line ends: nothing, or first of all the end of the line. -/
def BelowLine (text : List Char) : Prop := ∀ c ∈ text.head?, isLineBreak c = true

def lineEndings : List (List Char) := [['\n'], ['\r'], ['\r', '\n']]

/-- The second text is the first with blanks at the end of a line that may have them, or with a line
of blanks, above a line or at the end. -/
inductive Spaces (mayHave : List Char → Prop) : List Char → List Char → Prop
  | atEnd {above line blanks below : List Char} (habove : AboveLine above)
      (hline : ∀ c ∈ line, isLineBreak c = false) (hbelow : BelowLine below)
      (hblanks : ∀ c ∈ blanks, isBlank c = true) (hmay : mayHave line) :
      Spaces mayHave (above ++ line ++ below) (above ++ line ++ blanks ++ below)
  | line {above blanks ending below : List Char} (habove : AboveLine above)
      (hblanks : ∀ c ∈ blanks, isBlank c = true) (hending : ending ∈ lineEndings) :
      Spaces mayHave (above ++ below) (above ++ blanks ++ ending ++ below)
  | lastLine {text blanks ending : List Char} (hblanks : ∀ c ∈ blanks, isBlank c = true)
      (hending : ending ∈ lineEndings) : Spaces mayHave text (text ++ ending ++ blanks)

def notBlank (chars : List Char) : Bool := !chars.all isBlank

/-- The lines of a text that are not made of blanks alone, without their numbers. -/
def rows (text : List Char) : List (List Char) := (text.splitOnP isLineBreak).filter notBlank

/-- The second line is the first with blanks at its end. It has none there if it begins an alphabet
line without them. -/
structure Longer (l l' : List Char) : Prop where
  blanks : ∃ b, l' = l ++ b ∧ ∀ c ∈ b, isBlank c = true
  bare : Spells l Grammar.alphabetWord → l' = l

section Rows

variable {a b l t : List Char}

theorem rows_cons_break {c : Char} (hc : isLineBreak c = true) : rows (c :: t) = rows t := by
  rw [rows, List.splitOnP_cons_eq_if_modifyHead, if_pos hc, List.filter_cons_of_neg (by decide)]
  rfl

theorem rows_append_cons_break {c : Char} (hc : isLineBreak c = true) :
    rows (a ++ c :: t) = rows a ++ rows t := by
  rw [rows, List.splitOnP_append_cons a t hc, List.filter_append]
  rfl

/-- What is below a line adds its own rows. -/
theorem rows_append_of_belowLine (hb : BelowLine b) : rows (a ++ b) = rows a ++ rows b := by
  cases b with
  | nil => rw [List.append_nil]; exact (List.append_nil _).symm
  | cons c b =>
    have hc : isLineBreak c = true := hb c rfl
    rw [rows_append_cons_break hc, rows_cons_break hc]

/-- What is above a line has its own rows. -/
theorem rows_append_of_aboveLine (ha : AboveLine a) : rows (a ++ b) = rows a ++ rows b := by
  cases a using List.reverseRecOn with
  | nil => rfl
  | append_singleton a c =>
    have hc : isLineBreak c = true := ha c (by simp)
    rw [List.append_assoc, List.singleton_append, rows_append_cons_break hc,
      rows_append_cons_break hc]
    simp [rows, notBlank]

theorem rows_line (hl : ∀ c ∈ l, isLineBreak c = false) : rows l = [l].filter notBlank := by
  rw [rows, List.splitOnP_eq_singleton hl]

theorem splitOnP_eq_cons (text : List Char) :
    text.splitOnP isLineBreak = firstLine text :: (text.splitOnP isLineBreak).tail := by
  induction text with
  | nil => rfl
  | cons c cs ih =>
    rw [List.splitOnP_cons_eq_if_modifyHead, firstLine, List.takeWhile_cons]
    split
    case isTrue hc => simp [hc]
    case isFalse hc =>
      rw [ih]
      simp [hc, firstLine]

theorem rows_eq (text : List Char) : rows text =
    [firstLine text].filter notBlank ++ (text.splitOnP isLineBreak).tail.filter notBlank := by
  rw [rows, splitOnP_eq_cons text, ← List.singleton_append, List.filter_append]
  rfl

theorem map_chars_filter (n : Nat) (text : List Char) :
    ((linesFrom n text).filter Line.notBlank).map Line.chars =
      [firstLine text].filter notBlank ++
        ((linesFrom n text).tail.filter Line.notBlank).map Line.chars := by
  rw [linesFrom_eq_cons, ← List.singleton_append, List.filter_append, List.map_append]
  congr 1
  rw [List.filter_singleton, List.filter_singleton,
    show Line.notBlank ⟨n, firstLine text⟩ = notBlank (firstLine text) from rfl]
  cases notBlank (firstLine text) <;> rfl

/-- A carriage return with a line feed ends one line; taken for two line ends it would only add a
line that is empty. -/
theorem map_chars_tail_linesFrom (n : Nat) (text : List Char) :
    ((linesFrom n text).tail.filter Line.notBlank).map Line.chars =
      (text.splitOnP isLineBreak).tail.filter notBlank := by
  -- The induction is on the lines below the first.
  fun_induction linesFrom n text with
  | case1 n => rfl
  | case2 n cs ih =>
    rw [List.tail_cons, map_chars_filter, ih, ← rows_eq, ← rows_cons_break (c := '\n') rfl]
    rfl
  | case3 n cs _ ih =>
    rw [List.tail_cons, map_chars_filter, ih, ← rows_eq]
    rfl
  | case4 n cs ih =>
    rw [List.tail_cons, map_chars_filter, ih, ← rows_eq]
    rfl
  | case5 n c cs _ hr hn ih =>
    have hc : isLineBreak c = false := isLineBreak_eq_false_of_ne hr hn
    rw [linesFrom_eq_cons, List.modifyHead_cons, List.tail_cons, ih,
      List.splitOnP_cons_eq_if_modifyHead, if_neg (by simp [hc]), splitOnP_eq_cons cs]
    rfl

/-- The rows are the lines that are not made of blanks alone, whatever ends them. -/
theorem map_chars_filledLines (text : List Char) :
    (filledLines text).map Line.chars = rows text := by
  rw [filledLines, map_chars_filter, map_chars_tail_linesFrom, rows_eq]

theorem rows_eq_nil (h : ∀ c ∈ t, isVisible c = false) : rows t = [] := by
  rw [← map_chars_filledLines, List.map_eq_nil_iff]
  exact filter_linesFrom_eq_nil_iff.mpr h

theorem rows_blanks (hb : ∀ c ∈ b, isBlank c = true) : rows b = [] :=
  rows_eq_nil fun c hc => isVisible_eq_false_of_isBlank (hb c hc)

end Rows

section LineEndings

variable {ending t : List Char}

theorem ne_nil_of_mem_lineEndings (h : ending ∈ lineEndings) : ending ≠ [] := by
  revert ending
  decide

theorem isLineBreak_of_mem_lineEndings (h : ending ∈ lineEndings) :
    ∀ c ∈ ending, isLineBreak c = true := by
  simp only [lineEndings, List.mem_cons, List.not_mem_nil, or_false] at h
  obtain rfl | rfl | rfl := h <;> simp [isLineBreak]

theorem aboveLine_append (h : ending ∈ lineEndings) : AboveLine (t ++ ending) := by
  intro c hc
  rw [List.getLast?_append_of_ne_nil t (ne_nil_of_mem_lineEndings h)] at hc
  exact isLineBreak_of_mem_lineEndings h c (List.mem_of_getLast? hc)

theorem belowLine_of_mem_lineEndings (h : ending ∈ lineEndings) : BelowLine ending :=
  fun c hc => isLineBreak_of_mem_lineEndings h c (List.mem_of_head? hc)

/-- A line ending at the end adds no row. -/
theorem rows_append_ending (h : ending ∈ lineEndings) : rows (t ++ ending) = rows t := by
  have hnone : rows ending = [] :=
    rows_eq_nil fun c hc =>
      isVisible_eq_false_of_isLineBreak (isLineBreak_of_mem_lineEndings h c hc)
  rw [rows_append_of_belowLine (belowLine_of_mem_lineEndings h), hnone, List.append_nil]

end LineEndings

section Longer

variable {l l' : List Char}

theorem Longer.refl (l : List Char) : Longer l l := ⟨⟨[], by simp⟩, fun _ => rfl⟩

/-- Blanks behind the words of a line make no difference. -/
theorem words_append_blanks {b : List Char} (hb : ∀ c ∈ b, isBlank c = true) :
    words (l ++ b) = words l := by
  cases b with
  | nil => rw [List.append_nil]
  | cons c b =>
    have hc : isBlank c = true := hb c List.mem_cons_self
    have hrest : words b = [] := words_eq_nil_iff.mpr fun x hx => hb x (List.mem_cons_of_mem c hx)
    rw [words, List.splitOnP_append_cons l b hc, List.filter_append]
    show words l ++ words b = words l
    rw [hrest, List.append_nil]

theorem Longer.words_eq (h : Longer l l') : words l' = words l := by
  obtain ⟨b, rfl, hb⟩ := h.blanks
  exact words_append_blanks hb

end Longer

section Lines

variable {l l' : Line} {n : Nat}

/-- A longer line begins where the line did. -/
theorem Longer.flush (h : Longer l.chars l'.chars) (hne : words l.chars ≠ []) (hl : l.Flush) :
    l'.Flush := by
  obtain ⟨b, hb, -⟩ := h.blanks
  cases hc : l.chars with
  | nil => exact absurd (by rw [hc]; rfl) hne
  | cons x chars =>
    rw [Line.Flush, hc] at hl
    rw [Line.Flush, hb, hc]
    exact hl

theorem IsHeader.longer (hl : IsHeader l n) (h : Longer l.chars l'.chars) : IsHeader l' n := by
  obtain ⟨w, digits, hwords, hw⟩ := hl.words
  exact ⟨h.flush (by simp [hwords]) hl.flush, w, digits, h.words_eq.trans hwords, hw⟩

theorem IsState.longer {s : StateLine} (hl : IsState l s) (h : Longer l.chars l'.chars) :
    IsState l' s := by
  refine ⟨h.flush (by simp [hl.words]) hl.flush, hl.name, h.words_eq.trans hl.words, fun hs => ?_⟩
  have hbare := hl.bare hs
  rw [h.bare (by rw [hbare]; exact hs), hbare]

theorem IsAlphabet.longer {symbols : List Symbol} (hl : IsAlphabet l n symbols)
    (h : Longer l.chars l'.chars) : IsAlphabet l' n symbols := by
  obtain ⟨w, digits, hwords, hw⟩ := hl.words
  exact ⟨h.flush (by simp [hwords]) hl.flush, w, digits, h.words_eq.trans hwords, hw⟩

theorem IsTransition.longer {t : TransitionLine} (hl : IsTransition l t)
    (h : Longer l.chars l'.chars) : IsTransition l' { t with line := l'.number } := by
  obtain ⟨d, hd, hwords⟩ := hl.words
  exact ⟨h.flush (by simp [hwords]) hl.flush, hl.state, hl.next, ⟨d, hd, h.words_eq.trans hwords⟩,
    rfl⟩

end Lines

section Texts

variable {text text' : List Char} {d : Description}

/-- A line that may end in blanks. One that is just the word that begins an alphabet line would
begin one then. -/
def EndsFreely (line : List Char) : Prop := ¬ Spells line Grammar.alphabetWord

theorem forall₂_append_left {α β : Type} {R : α → β → Prop} {as bs : List α} {cs : List β}
    (h : List.Forall₂ R (as ++ bs) cs) :
    ∃ xs ys, cs = xs ++ ys ∧ List.Forall₂ R as xs ∧ List.Forall₂ R bs ys := by
  have hflip : List.Forall₂ (flip R) cs (as ++ bs) := h.flip
  exact ⟨cs.take as.length, cs.drop as.length, (List.take_append_drop as.length cs).symm,
    (List.forall₂_take_append cs as bs hflip).flip, (List.forall₂_drop_append cs as bs hflip).flip⟩

/-- If a line says the same when it is longer, so do lines one by one. -/
theorem forall₂_longer {α β : Type} {Says : Line → α → Prop} {f : α → β}
    (hlonger : ∀ l l' x, Says l x → Longer l.chars l'.chars → ∃ x', Says l' x' ∧ f x' = f x)
    {ls ls' : List Line} {xs : List α} (hxs : List.Forall₂ Says ls xs)
    (hls : List.Forall₂ (fun l l' => Longer l.chars l'.chars) ls ls') :
    ∃ xs', List.Forall₂ Says ls' xs' ∧ xs'.map f = xs.map f := by
  induction hxs generalizing ls' with
  | nil =>
    obtain rfl := List.forall₂_nil_left_iff.mp hls
    exact ⟨[], .nil, rfl⟩
  | @cons l x ls xs hx _ ih =>
    obtain ⟨l', ls', hl, htail, rfl⟩ := List.forall₂_cons_left_iff.mp hls
    obtain ⟨x', hx', hf⟩ := hlonger l l' x hx hl
    obtain ⟨xs', hxs', hfs⟩ := ih htail
    exact ⟨x' :: xs', .cons hx' hxs', by rw [List.map_cons, List.map_cons, hf, hfs]⟩

/-- A text with longer rows says the same, perhaps on other lines. -/
theorem Describes.longer (h : Describes text d)
    (hrows : List.Forall₂ Longer (rows text) (rows text')) :
    ∃ d', Describes text' d' ∧ d'.onOneLine = d.onOneLine := by
  obtain ⟨header, states, alphabet, transitions, hlines, hheader, hstates, halphabet, hall⟩ := h
  rw [← map_chars_filledLines, ← map_chars_filledLines, List.forall₂_map_left_iff,
    List.forall₂_map_right_iff, hlines] at hrows
  -- Row by row: the header, the states, the alphabet and the transitions.
  obtain ⟨above, below, hlines', habove, hbelow⟩ := forall₂_append_left hrows
  obtain ⟨header', states', hlong, hlongStates, rfl⟩ := List.forall₂_cons_left_iff.mp habove
  obtain ⟨alphabet', transitions', hlongAlphabet, hlongTransitions, rfl⟩ :=
    List.forall₂_cons_left_iff.mp hbelow
  obtain ⟨ss, hss, heq⟩ := forall₂_longer (f := id)
    (fun _ _ s hs hl => ⟨s, hs.longer hl, rfl⟩) hstates hlongStates
  obtain ⟨ts, hts, htsEq⟩ := forall₂_longer (f := fun t : TransitionLine => { t with line := 1 })
    (fun _ l' t ht hl => ⟨{ t with line := l'.number }, ht.longer hl, rfl⟩) hall hlongTransitions
  rw [List.map_id, List.map_id] at heq
  subst heq
  refine ⟨{ d with transitions := ts }, ⟨header', states', alphabet', transitions', hlines',
    hheader.longer hlong, hss, halphabet.longer hlongAlphabet, hts⟩, ?_⟩
  show { d with transitions := ts.map fun t => { t with line := 1 } } = d.onOneLine
  rw [htsEq]
  rfl

theorem rows_line_append {l b : List Char} (hl : ∀ c ∈ l, isLineBreak c = false)
    (hb : ∀ c ∈ b, isBlank c = true) (hfree : EndsFreely l) :
    List.Forall₂ Longer (rows l) (rows (l ++ b)) := by
  have hlb : ∀ c ∈ l ++ b, isLineBreak c = false := by
    intro c hc
    obtain hc | hc := List.mem_append.mp hc
    · exact hl c hc
    · exact isLineBreak_eq_false_of_isBlank (hb c hc)
  have hall : notBlank (l ++ b) = notBlank l := by
    have hb' : b.all isBlank = true := List.all_eq_true.mpr hb
    rw [notBlank, notBlank, List.all_append, hb', Bool.and_true]
  rw [rows_line hl, rows_line hlb, List.filter_singleton, List.filter_singleton, hall]
  cases notBlank l with
  | false => exact .nil
  | true => exact .cons ⟨⟨b, rfl, hb⟩, fun h => absurd h hfree⟩ .nil

theorem forall₂_refl_longer (ls : List (List Char)) : List.Forall₂ Longer ls ls :=
  List.forall₂_same.mpr fun l _ => Longer.refl l

/-- Blanks that are free to stand where they do make rows longer, and add none. -/
theorem Spaces.longer (h : Spaces EndsFreely text text') :
    List.Forall₂ Longer (rows text) (rows text') := by
  cases h with
  | @atEnd above line blanks below habove hline hbelow hblanks hfree =>
    rw [rows_append_of_belowLine hbelow, rows_append_of_belowLine hbelow, List.append_assoc above,
      rows_append_of_aboveLine habove, rows_append_of_aboveLine habove]
    exact List.rel_append (List.rel_append (forall₂_refl_longer _)
      (rows_line_append hline hblanks hfree)) (forall₂_refl_longer _)
  | @line above blanks ending below habove hblanks hending =>
    rw [rows_append_of_aboveLine (aboveLine_append hending), rows_append_ending hending,
      rows_append_of_aboveLine habove, rows_append_of_aboveLine habove, rows_blanks hblanks,
      List.append_nil]
    exact forall₂_refl_longer _
  | @lastLine text blanks ending hblanks hending =>
    rw [rows_append_of_aboveLine (aboveLine_append hending), rows_append_ending hending,
      rows_blanks hblanks, List.append_nil]
    exact forall₂_refl_longer _

end Texts

/-- Blanks at the end of lines and lines of blanks do not change what a text describes, but for the
numbers of its lines. A line that is just the word that begins an alphabet line is not given any
blanks at its end. -/
theorem parse_spaced {text text' : String} {d : Description} (h : parse text = .ok d)
    (hspaces : Relation.ReflTransGen (Spaces EndsFreely) text.toList text'.toList) :
    ∃ d', parse text' = .ok d' ∧ d'.onOneLine = d.onOneLine := by
  suffices hall : ∀ chars, Relation.ReflTransGen (Spaces EndsFreely) text.toList chars →
      ∃ d', Describes chars d' ∧ d'.onOneLine = d.onOneLine by
    obtain ⟨d', hd', heq⟩ := hall _ hspaces
    exact ⟨d', ofChars_eq_ok_iff_describes.mpr hd', heq⟩
  intro chars hchars
  induction hchars with
  | refl => exact ⟨d, ofChars_eq_ok_iff_describes.mp h, rfl⟩
  | tail _ hstep ih =>
    obtain ⟨d1, hd1, heq1⟩ := ih
    obtain ⟨d2, hd2, heq2⟩ := hd1.longer hstep.longer
    exact ⟨d2, hd2, heq2.trans heq1⟩

/-- Two blanks after the state `b`, and a line with a tab above the alphabet. -/
theorem parse_spaced_of_two_states :
    ∃ d', parse "states 2\na +\nb -  \n\t\r\nalphabet 0\na x b x R" = .ok d' ∧
      d'.onOneLine = ⟨2, [⟨"a", some .accept⟩, ⟨"b", some .reject⟩], 0, [],
        [⟨"a", "x", "b", "x", .right, 1⟩]⟩ := by
  have hparse : parse "states 2\na +\nb -\nalphabet 0\na x b x R" =
      .ok ⟨2, [⟨"a", some .accept⟩, ⟨"b", some .reject⟩], 0, [],
        [⟨"a", "x", "b", "x", .right, 5⟩]⟩ := by decide +kernel
  have hblanks : Spaces EndsFreely "states 2\na +\nb -\nalphabet 0\na x b x R".toList
      "states 2\na +\nb -  \nalphabet 0\na x b x R".toList := by
    have h : Spaces EndsFreely
        ("states 2\na +\n".toList ++ "b -".toList ++ "\nalphabet 0\na x b x R".toList)
        ("states 2\na +\n".toList ++ "b -".toList ++ "  ".toList ++
          "\nalphabet 0\na x b x R".toList) :=
      .atEnd (by simp [AboveLine, isLineBreak]) (by simp [isLineBreak])
        (by simp [BelowLine, isLineBreak]) (by simp [isBlank])
        (by simp [EndsFreely, Spells, Grammar.alphabetWord])
    simpa only [← String.toList_append, String.reduceAppend] using h
  have hline : Spaces EndsFreely "states 2\na +\nb -  \nalphabet 0\na x b x R".toList
      "states 2\na +\nb -  \n\t\r\nalphabet 0\na x b x R".toList := by
    have h : Spaces EndsFreely
        ("states 2\na +\nb -  \n".toList ++ "alphabet 0\na x b x R".toList)
        ("states 2\na +\nb -  \n".toList ++ "\t".toList ++ "\r\n".toList ++
          "alphabet 0\na x b x R".toList) :=
      .line (by simp [AboveLine, isLineBreak]) (by simp [isBlank]) (by decide)
    simpa only [← String.toList_append, String.reduceAppend] using h
  exact parse_spaced hparse ((Relation.ReflTransGen.single hblanks).tail hline)

/-- A state line that is just the word that begins an alphabet line begins one when a blank is put
at its end: the text is no description any more. -/
theorem not_parse_spaced_after_bare_word :
    ∃ d, parse "states 3\nalphabet\na +\nr -\nalphabet 0" = .ok d ∧
      Spaces (fun _ => True) "states 3\nalphabet\na +\nr -\nalphabet 0".toList
        "states 3\nalphabet \na +\nr -\nalphabet 0".toList ∧
      ¬ ∃ d', parse "states 3\nalphabet \na +\nr -\nalphabet 0" = .ok d' ∧
        d'.onOneLine = d.onOneLine := by
  have hblank : Spaces (fun _ => True)
      ("states 3\n".toList ++ "alphabet".toList ++ "\na +\nr -\nalphabet 0".toList)
      ("states 3\n".toList ++ "alphabet".toList ++ " ".toList ++
        "\na +\nr -\nalphabet 0".toList) :=
    .atEnd (by simp [AboveLine, isLineBreak]) (by simp [isLineBreak])
      (by simp [BelowLine, isLineBreak]) (by simp [isBlank]) trivial
  refine ⟨⟨3, [⟨"alphabet", none⟩, ⟨"a", some .accept⟩, ⟨"r", some .reject⟩], 0, [], []⟩,
    by decide +kernel, by simpa only [← String.toList_append, String.reduceAppend] using hblank, ?_⟩
  rintro ⟨d', hd', -⟩
  have hfails : (parse "states 3\nalphabet \na +\nr -\nalphabet 0").toOption = none := by
    decide +kernel
  rw [hd'] at hfails
  cases hfails

end Description

end SingleTape
