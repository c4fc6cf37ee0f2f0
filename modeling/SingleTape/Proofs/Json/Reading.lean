import Mathlib.Data.List.Forall2
import SingleTape.Json.Value
import SingleTape.Json.Writer

/-!
# Reading what is written

The text of a written value is cut into the tokens from which it was put together, whatever comes
behind it, and the tokens give the value back. Strings keep all their characters, although some are
written with escapes, and numbers their digits.
-/

namespace SingleTape.Json

/-! ## Strings -/

/-- The piece as which a character is read that has been written. Control characters that have no
letter for their escape are written as code units. -/
def Piece.ofChar (c : Char) : Piece :=
  if c.toNat < 0x20 ∧ c ∉ ['\x08', '\x0c', '\n', '\r', '\t'] then .unit c.toNat else .char c

def piecesOf (s : String) : List Piece := s.toList.map .ofChar

theorem unitValue?_hexDigit {n : Nat} (h : n < 0x20) :
    unitValue? '0' '0' (hexDigit (n / 16)) (hexDigit (n % 16)) = some n := by
  revert n
  decide

/-- Every character is read back from the way it is written. -/
theorem stringPieces_escapeChar (before : List Piece) (c : Char) (rest : List Char) :
    stringPieces before (escapeChar c ++ rest) = stringPieces (.ofChar c :: before) rest := by
  unfold escapeChar
  split
  case h_8 hquote hbackslash hb hf hn hr ht =>
    have hletters : c ∉ ['\x08', '\x0c', '\n', '\r', '\t'] := by
      simp only [List.mem_cons, List.not_mem_nil, or_false, not_or]
      exact ⟨hb, hf, hn, hr, ht⟩
    split
    case isTrue hcontrol =>
      rw [Piece.ofChar, if_pos ⟨hcontrol, hletters⟩]
      show stringPieces before ('\\' :: 'u' :: '0' :: '0' :: _ :: _ :: rest) = _
      rw [stringPieces, unitValue?_hexDigit hcontrol]
    case isFalse hcontrol =>
      rw [Piece.ofChar, if_neg fun h => hcontrol h.1, List.singleton_append, stringPieces,
        if_neg hcontrol]
      · exact hquote
      · exact fun _ _ _ _ _ h => absurd h hbackslash
      · exact fun _ _ h => absurd h hbackslash
  all_goals rfl

/-- A written string is read up to its closing quote. -/
theorem stringPieces_escaped (cs : List Char) (before : List Piece) (rest : List Char) :
    stringPieces before (cs.flatMap escapeChar ++ '"' :: rest) =
      some (before.reverse ++ cs.map .ofChar, rest) := by
  induction cs generalizing before with
  | nil => simp [stringPieces]
  | cons c cs ih =>
    rw [List.flatMap_cons, List.append_assoc, stringPieces_escapeChar, ih, List.reverse_cons,
      List.append_assoc]
    rfl

namespace Value

/-- Code units below the surrogates stand for themselves. -/
theorem textOf_unit (before : List Char) {n : Nat} (h : n < 0xd800) (rest : List Piece) :
    textOf before (.unit n :: rest) = textOf (Char.ofNat n :: before) rest := by
  rw [textOf.eq_def]
  dsimp only
  rw [if_neg (by omega), if_neg (by omega)]

/-- Characters as pieces make up their own text, since none of them is half of a pair. -/
theorem textOf_map_ofChar (cs before : List Char) :
    textOf before (cs.map .ofChar) = some (before.reverse ++ cs) := by
  induction cs generalizing before with
  | nil => simp [textOf]
  | cons c cs ih =>
    have hcons : textOf before ((c :: cs).map .ofChar) = textOf (c :: before) (cs.map .ofChar) := by
      rw [List.map_cons, Piece.ofChar]
      split
      case isTrue hcontrol =>
        rw [textOf_unit before (by omega), Char.ofNat_toNat]
      case isFalse => rw [textOf]
    rw [hcons, ih, List.reverse_cons, List.append_assoc]
    rfl

@[simp] theorem piecesText?_piecesOf (s : String) : piecesText? (piecesOf s) = some s := by
  rw [piecesText?, piecesOf, textOf_map_ofChar, Option.map_some, List.reverse_nil, List.nil_append,
    String.ofList_toList]

end Value

/-! ## Numbers -/

/-- What may come behind a value inside an object: nothing that would belong to a number. -/
def Ends (rest : List Char) : Prop := ∀ c ∈ rest.head?, c = ',' ∨ c = '\x7d'

theorem digits?_append {ds rest : List Char} (hne : ds ≠ []) (hds : ∀ d ∈ ds, d.isDigit = true)
    (hrest : Ends rest) : digits? (ds ++ rest) = some (ds, rest) := by
  have hstops : rest.takeWhile Char.isDigit = [] ∧ rest.dropWhile Char.isDigit = rest := by
    cases rest with
    | nil => exact ⟨rfl, rfl⟩
    | cons c rest => rcases hrest c rfl with rfl | rfl <;> exact ⟨rfl, rfl⟩
  unfold digits?
  rw [List.takeWhile_append_of_pos hds, List.dropWhile_append_of_pos hds, hstops.1, hstops.2,
    List.append_nil]
  cases ds with
  | nil => exact absurd rfl hne
  | cons d ds => rfl

/-- A number that has more than one digit does not begin with a zero. -/
theorem eq_zero_of_head?_toDigits {n : Nat} (h : (Nat.toDigits 10 n).head? = some '0') : n = 0 := by
  induction n using Nat.strongRecOn with
  | ind n ih =>
    rw [Nat.toDigits_eq_if (by decide)] at h
    split at h
    case isTrue hlt =>
      have hsmall : ∀ d < 10, [Nat.digitChar d].head? = some '0' → d = 0 := by decide
      exact hsmall n hlt h
    case isFalse hge =>
      rw [List.head?_append_of_ne_nil _ Nat.toDigits_ne_nil] at h
      have hdiv := ih (n / 10) (by omega) h
      omega

theorem isDigit_of_mem_number {n : Nat} {d : Char} (h : d ∈ Nat.toDigits 10 n) :
    d.isDigit = true :=
  Nat.isDigit_of_mem_toDigits (by decide) (by decide) h

theorem exists_toDigits_eq_cons (n : Nat) :
    ∃ d ds, Nat.toDigits 10 n = d :: ds ∧ d.isDigit = true := by
  obtain ⟨d, ds, hdigits⟩ := List.exists_cons_of_ne_nil (Nat.toDigits_ne_nil (n := n) (b := 10))
  exact ⟨d, ds, hdigits, isDigit_of_mem_number (hdigits ▸ List.mem_cons_self)⟩

/-- No number begins with a character that is not a digit. -/
theorem cons_ne_cons {c d : Char} (hd : d.isDigit = true) (hc : c.isDigit = false)
    {text more : List Char} : d :: text ≠ c :: more := by
  rintro heq
  rw [(List.cons.inj heq).1, hc] at hd
  cases hd

/-- A written number is read as an integer, also if it is a single zero. -/
theorem integer?_number (n : Nat) {rest : List Char} (hrest : Ends rest) :
    integer? (Nat.toDigits 10 n ++ rest) = some (Nat.toDigits 10 n, rest) := by
  by_cases hzero : n = 0
  · subst hzero
    rfl
  · rw [integer?, digits?_append Nat.toDigits_ne_nil (fun d hd => isDigit_of_mem_number hd) hrest]
    intro more heq
    apply hzero
    apply eq_zero_of_head?_toDigits
    rw [← List.head?_append_of_ne_nil _ Nat.toDigits_ne_nil, heq]
    rfl

/-- Behind a written number there is no fraction. -/
theorem fraction?_of_ends {rest : List Char} (hrest : Ends rest) :
    fraction? rest = some ([], rest) := by
  cases rest with
  | nil => rfl
  | cons c rest => rcases hrest c rfl with rfl | rfl <;> rfl

/-- Behind a written number there is no exponent. -/
theorem exponent?_of_ends {rest : List Char} (hrest : Ends rest) :
    exponent? rest = some ([], rest) := by
  cases rest with
  | nil => rfl
  | cons c rest => rcases hrest c rfl with rfl | rfl <;> rfl

/-- A written number is read back with all its digits. -/
theorem number?_number (n : Nat) {rest : List Char} (hrest : Ends rest) :
    number? (Nat.toDigits 10 n ++ rest) = some (Nat.toDigits 10 n, rest) := by
  obtain ⟨d, ds, hdigits, hd⟩ := exists_toDigits_eq_cons n
  have hminus : ∀ more, Nat.toDigits 10 n ++ rest ≠ '-' :: more := by
    rintro more heq
    rw [hdigits] at heq
    exact cons_ne_cons hd rfl heq
  -- There is no minus, no fraction and no exponent, only digits.
  unfold number?
  split
  rename_i sign more hsign
  split at hsign
  case h_1 heq => exact absurd heq (hminus _)
  case h_2 =>
    cases hsign
    rw [integer?_number n hrest]
    show (fraction? rest >>= _) = _
    rw [fraction?_of_ends hrest]
    show (exponent? rest >>= _) = _
    rw [exponent?_of_ends hrest]
    show some (_ ++ [] ++ [], rest) = _
    rw [List.append_nil, List.append_nil]
    rfl

/-- Digits of a number that fits into a word give back that number. -/
theorem word?_number {n : Nat} (h : n < Text.wordLimit) :
    Value.word? (.number (Nat.toDigits 10 n)) = some n := by
  have hvalue : Text.ofDigits (Nat.toDigits 10 n) = n := by
    rw [Text.ofDigits, ← Nat.ofDigitChars_eq_foldl, Nat.ofDigitChars_ten_toDigits]
  have hall : (Nat.toDigits 10 n).all Char.isDigit = true :=
    List.all_eq_true.mpr fun d hd => isDigit_of_mem_number hd
  rw [Value.word?, Text.word?, hvalue, if_pos ⟨Nat.toDigits_ne_nil, hall, h⟩]

/-! ## Tokens -/

/-- The text consists of these tokens, with no white space before and between them. -/
inductive Compact : List Char → List Token → Prop
  | nil : Compact [] []
  | cons {c : Char} {text rest : List Char} {t : Token} {ts : List Token}
      (hc : isSpace c = false) (ht : token? (c :: text) = some (t, rest))
      (hshort : rest.length ≤ text.length) (h : Compact rest ts) : Compact (c :: text) (t :: ts)

/-- As many tries as there are characters are enough to cut a text into its tokens. -/
theorem Compact.tokensUpTo_eq {text : List Char} {ts : List Token} (h : Compact text ts) {n : Nat}
    (hn : text.length ≤ n) (before : Array Token) :
    (tokensUpTo (n + 1) before text).map Array.toList = some (before.toList ++ ts) := by
  -- By induction on the tokens: each takes at most one of the tries that its characters allow for.
  induction h generalizing n before with
  | nil => simp [tokensUpTo]
  | @cons c text rest t ts hc ht hshort h ih =>
    rw [List.length_cons] at hn
    obtain ⟨m, rfl⟩ : ∃ m, n = m + 1 := ⟨n - 1, by omega⟩
    have hword : (c :: text).dropWhile isSpace = c :: text :=
      List.dropWhile_cons_of_neg (by rw [hc]; decide)
    rw [tokensUpTo, hword]
    simp only [ht]
    rw [ih (by omega), Array.toList_push, List.append_assoc]
    rfl

theorem Compact.tokens?_eq {text : List Char} {ts : List Token} (h : Compact text ts) :
    tokens? text = some ts :=
  h.tokensUpTo_eq (Nat.le_refl _) #[]

namespace Compact

variable {rest : List Char} {ts : List Token} (h : Compact rest ts)

include h

theorem openBrace : Compact ('\x7b' :: rest) (.openBrace :: ts) := .cons rfl rfl (Nat.le_refl _) h

theorem closeBrace : Compact ('\x7d' :: rest) (.closeBrace :: ts) := .cons rfl rfl (Nat.le_refl _) h

theorem colon : Compact (':' :: rest) (.colon :: ts) := .cons rfl rfl (Nat.le_refl _) h

theorem comma : Compact (',' :: rest) (.comma :: ts) := .cons rfl rfl (Nat.le_refl _) h

theorem bool (b : Bool) : Compact ((bool b).toList ++ rest) (.bool b :: ts) := by
  have hshort : ∀ word : List Char, rest.length ≤ (word ++ rest).length := by
    intro word
    rw [List.length_append]
    omega
  cases b with
  | false => exact .cons rfl rfl (hshort ['a', 'l', 's', 'e']) h
  | true => exact .cons rfl rfl (hshort ['r', 'u', 'e']) h

theorem string (s : String) : Compact ((string s).toList ++ rest) (.string (piecesOf s) :: ts) := by
  have htext : (Json.string s).toList ++ rest =
      '"' :: (s.toList.flatMap escapeChar ++ '"' :: rest) := by
    rw [Json.string, String.toList_ofList, List.append_assoc, List.cons_append]
    rfl
  have htoken : token? ('"' :: (s.toList.flatMap escapeChar ++ '"' :: rest)) =
      some (.string (piecesOf s), rest) := by
    show (stringPieces [] _ >>= fun p => some (Token.string p.1, p.2)) = _
    rw [stringPieces_escaped]
    rfl
  rw [htext]
  refine .cons rfl htoken ?_ h
  rw [List.length_append, List.length_cons]
  omega

theorem number (n : Nat) (hrest : Ends rest) :
    Compact ((Json.number n).toList ++ rest) (.number (Nat.toDigits 10 n) :: ts) := by
  have hnumber := number?_number n hrest
  have htext : (Json.number n).toList = Nat.toDigits 10 n := by
    rw [Json.number, Nat.toString_eq_ofList_toDigits, String.toList_ofList]
  obtain ⟨d, ds, hdigits, hd⟩ := exists_toDigits_eq_cons n
  have hspace : isSpace d = false := by
    refine Bool.eq_false_iff.mpr fun hspace => ?_
    simp only [isSpace, Bool.or_eq_true, decide_eq_true_eq] at hspace
    rcases hspace with ((rfl | rfl) | rfl) | rfl <;> cases hd
  rw [hdigits] at hnumber
  -- A digit begins none of the other tokens.
  have htoken : token? (d :: (ds ++ rest)) = some (.number (d :: ds), rest) := by
    rw [token?]
    · show (number? (d :: ds ++ rest) >>= _) = _
      rw [hnumber]
      rfl
    all_goals exact fun _ => cons_ne_cons hd rfl
  rw [htext, hdigits, List.cons_append]
  refine .cons hspace htoken ?_ h
  rw [List.length_append]
  omega

end Compact

/-! ## Values -/

/-- The text is read as the value wherever a value may stand. -/
def Writes (text : List Char) (v : Value) : Prop :=
  ∃ ts, (∀ {rest out}, Ends rest → Compact rest out → Compact (text ++ rest) (ts ++ out)) ∧
    ∀ stack out, Value.build none stack (ts ++ out) = Value.build (some v) stack out

/-- A text that writes a value is parsed as this value. -/
theorem Writes.parse?_eq {text : String} {v : Value} (h : Writes text.toList v) :
    Value.parse? text = some v := by
  obtain ⟨ts, hcompact, hbuild⟩ := h
  have htokens : tokens? text.toList = some ts := by
    have hends : Ends [] := fun c hc => nomatch hc
    have hall := hcompact hends .nil
    rw [List.append_nil, List.append_nil] at hall
    exact hall.tokens?_eq
  have hvalue := hbuild [] []
  rw [List.append_nil] at hvalue
  rw [Value.parse?, htokens]
  exact hvalue.trans rfl

theorem writes_bool (b : Bool) : Writes (bool b).toList (.bool b) :=
  ⟨[.bool b], fun _ h => h.bool b, fun _ _ => rfl⟩

theorem writes_string (s : String) : Writes (string s).toList (.string (piecesOf s)) :=
  ⟨[.string (piecesOf s)], fun _ h => h.string s, fun _ _ => rfl⟩

theorem writes_number (n : Nat) : Writes (number n).toList (.number (Nat.toDigits 10 n)) :=
  ⟨[.number (Nat.toDigits 10 n)], fun hrest h => h.number n hrest, fun _ _ => rfl⟩

def member (f : String × String) : List Char := (string f.1).toList ++ ':' :: f.2.toList

/-- Commas stand between the texts and nowhere else. -/
theorem toList_intercalate_cons (t : String) (ts : List String) :
    (",".intercalate (t :: ts)).toList = t.toList ++ ts.flatMap fun u => ',' :: u.toList := by
  induction ts generalizing t with
  | nil => simp
  | cons u ts ih =>
    rw [String.intercalate_cons_cons, String.toList_append, String.toList_append, ih,
      List.flatMap_cons, List.append_assoc]
    rfl

/-- An object with members: the first one, and each of the others behind a comma. -/
theorem toList_object_cons (f : String × String) (fs : List (String × String)) :
    (object (f :: fs)).toList =
      '\x7b' :: (member f ++ (fs.flatMap (fun g => ',' :: member g) ++ ['\x7d'])) := by
  have hmember : ∀ g : String × String, (string g.1 ++ ":" ++ g.2).toList = member g := by
    intro g
    rw [String.toList_append, String.toList_append, List.append_assoc]
    rfl
  have hopen : "\x7b".toList = ['\x7b'] := rfl
  have hclose : "\x7d".toList = ['\x7d'] := rfl
  unfold object
  rw [List.map_cons, String.toList_append, String.toList_append, toList_intercalate_cons,
    List.flatMap_map, hopen, hclose]
  simp only [hmember, List.append_assoc, List.cons_append, List.nil_append]

/-- The member of an object is read as this key and this value. -/
def WritesMember (f : String × String) (g : List Piece × Value) : Prop :=
  g.1 = piecesOf f.1 ∧ Writes f.2.toList g.2

/-- The tokens of a member are its name, a colon and those of its value, wherever it stands. -/
theorem WritesMember.exists_tokens {f : String × String} {g : List Piece × Value}
    (h : WritesMember f g) :
    ∃ ts, (∀ {rest out}, Ends rest → Compact rest out →
        Compact (member f ++ rest) (.string g.1 :: .colon :: (ts ++ out))) ∧
      ∀ stack out, Value.build none stack (ts ++ out) = Value.build (some g.2) stack out := by
  obtain ⟨hkey, ts, hcompact, hbuild⟩ := h
  refine ⟨ts, fun {rest out} hrest hout => ?_, hbuild⟩
  rw [hkey, member, List.append_assoc, List.cons_append]
  exact (hcompact hrest hout).colon.string f.1

/-- Behind a member comes something that ends a number. -/
theorem ends_members (fs : List (String × String)) (rest : List Char) :
    Ends (fs.flatMap (fun f => ',' :: member f) ++ '\x7d' :: rest) := by
  cases fs with
  | nil => exact fun c hc => .inr (Option.some.inj hc).symm
  | cons f fs => exact fun c hc => .inl (Option.some.inj hc).symm

/-- The members behind the first one, and the closing brace, are read as the rest of the object. -/
theorem exists_tokens_of_members {fs : List (String × String)} {gs : List (List Piece × Value)}
    (h : List.Forall₂ WritesMember fs gs) :
    ∃ ts, (∀ {rest out}, Compact rest out →
        Compact (fs.flatMap (fun f => ',' :: member f) ++ '\x7d' :: rest) (ts ++ out)) ∧
      ∀ v before key stack out,
        Value.build (some v) (.object before key :: stack) (ts ++ out) =
          Value.build (some (.object (before.reverse ++ (key, v) :: gs))) stack out := by
  -- By induction on the members: what follows the value of one is the next one or the closing
  -- brace.
  induction h with
  | nil =>
    refine ⟨[.closeBrace], fun hout => hout.closeBrace, fun v before key stack out => ?_⟩
    show Value.build (some (.object ((key, v) :: before).reverse)) stack out = _
    rw [List.reverse_cons]
  | @cons f g fs gs hfirst _ ih =>
    obtain ⟨value, hmember, hvalue⟩ := hfirst.exists_tokens
    obtain ⟨others, hothers, hbuild⟩ := ih
    refine ⟨.comma :: .string g.1 :: .colon :: (value ++ others), fun {rest out} hout => ?_,
      fun v before key stack out => ?_⟩
    · have hrest := (hmember (ends_members fs rest) (hothers hout)).comma
      rw [← List.append_assoc value] at hrest
      rw [List.flatMap_cons, List.append_assoc]
      exact hrest
    · show Value.build none (.object ((key, v) :: before) g.1 :: stack) (value ++ others ++ out) = _
      rw [List.append_assoc, hvalue, hbuild, List.reverse_cons, List.append_assoc]
      rfl

theorem writes_object {fs : List (String × String)} {gs : List (List Piece × Value)}
    (h : List.Forall₂ WritesMember fs gs) : Writes (object fs).toList (.object gs) := by
  cases h with
  | nil =>
    exact ⟨[.openBrace, .closeBrace], fun _ hout => hout.closeBrace.openBrace, fun _ _ => rfl⟩
  | @cons f g fs gs hfirst hrest =>
    obtain ⟨value, hmember, hvalue⟩ := hfirst.exists_tokens
    obtain ⟨others, hothers, hbuild⟩ := exists_tokens_of_members hrest
    refine ⟨.openBrace :: .string g.1 :: .colon :: (value ++ others), fun {rest out} _ hout => ?_,
      fun stack out => ?_⟩
    · have hall := (hmember (ends_members fs rest) (hothers hout)).openBrace
      rw [← List.append_assoc value] at hall
      rw [toList_object_cons, List.cons_append, List.append_assoc, List.append_assoc]
      exact hall
    · show Value.build none (.object [] g.1 :: stack) (value ++ others ++ out) = _
      rw [List.append_assoc, hvalue, hbuild]
      rfl

end SingleTape.Json
