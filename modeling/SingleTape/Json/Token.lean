/-!
# The tokens of JSON

A JSON text is cut into brackets, separators, words, numbers and strings. Numbers keep their
digits and strings their escapes: what they stand for is only asked where a value is wanted, and a
string may well stand for no text at all.
-/

namespace SingleTape.Json

/-- A piece of a string: a character, also one with an escape of its own, or a code unit given by
its four hexadecimal digits. -/
inductive Piece where
  | char (c : Char)
  | unit (code : Nat)
deriving DecidableEq

inductive Token where
  | openBrace
  | closeBrace
  | openBracket
  | closeBracket
  | colon
  | comma
  | null
  | bool (b : Bool)
  | number (text : List Char)
  | string (pieces : List Piece)
deriving DecidableEq

def isSpace (c : Char) : Bool := c = ' ' || c = '\t' || c = '\n' || c = '\r'

def hexValue? (c : Char) : Option Nat :=
  if '0' ≤ c ∧ c ≤ '9' then some (c.toNat - '0'.toNat)
  else if 'a' ≤ c ∧ c ≤ 'f' then some (c.toNat - 'a'.toNat + 10)
  else if 'A' ≤ c ∧ c ≤ 'F' then some (c.toNat - 'A'.toNat + 10)
  else none

def unitValue? (a b c d : Char) : Option Nat := do
  return (((← hexValue? a) * 16 + (← hexValue? b)) * 16 + (← hexValue? c)) * 16 + (← hexValue? d)

def escaped? : Char → Option Char
  | '"' => some '"'
  | '\\' => some '\\'
  | '/' => some '/'
  | 'b' => some '\x08'
  | 'f' => some '\x0c'
  | 'n' => some '\n'
  | 'r' => some '\r'
  | 't' => some '\t'
  | _ => none

/-- The pieces up to the closing quote, added to the reverse of those before, and what follows the
quote. A string holds no bare control character. -/
def stringPieces (before : List Piece) : List Char → Option (List Piece × List Char)
  | '"' :: rest => some (before.reverse, rest)
  | '\\' :: 'u' :: a :: b :: c :: d :: rest =>
    match unitValue? a b c d with
    | some n => stringPieces (.unit n :: before) rest
    | none => none
  | '\\' :: e :: rest =>
    match escaped? e with
    | some c => stringPieces (.char c :: before) rest
    | none => none
  | c :: rest => if c.toNat < 0x20 then none else stringPieces (.char c :: before) rest
  | [] => none

def digits? (text : List Char) : Option (List Char × List Char) :=
  match text.takeWhile Char.isDigit with
  | [] => none
  | ds => some (ds, text.dropWhile Char.isDigit)

def integer? : List Char → Option (List Char × List Char)
  | '0' :: rest => some (['0'], rest)
  | text => digits? text

def fraction? : List Char → Option (List Char × List Char)
  | '.' :: rest => do
    let (ds, rest) ← digits? rest
    return ('.' :: ds, rest)
  | text => some ([], text)

def exponent? (text : List Char) : Option (List Char × List Char) :=
  match text with
  | e :: rest =>
    if e = 'e' ∨ e = 'E' then
      let (sign, rest) := match rest with
        | '+' :: rest => (['+'], rest)
        | '-' :: rest => (['-'], rest)
        | rest => ([], rest)
      do
        let (ds, rest) ← digits? rest
        return (e :: sign ++ ds, rest)
    else some ([], text)
  | [] => some ([], [])

def number? (text : List Char) : Option (List Char × List Char) := do
  let (sign, rest) := match text with
    | '-' :: rest => (['-'], rest)
    | text => ([], text)
  let (whole, rest) ← integer? rest
  let (fraction, rest) ← fraction? rest
  let (exponent, rest) ← exponent? rest
  return (sign ++ whole ++ fraction ++ exponent, rest)

def token? : List Char → Option (Token × List Char)
  | '\x7b' :: rest => some (.openBrace, rest)
  | '\x7d' :: rest => some (.closeBrace, rest)
  | '[' :: rest => some (.openBracket, rest)
  | ']' :: rest => some (.closeBracket, rest)
  | ':' :: rest => some (.colon, rest)
  | ',' :: rest => some (.comma, rest)
  | 'n' :: 'u' :: 'l' :: 'l' :: rest => some (.null, rest)
  | 't' :: 'r' :: 'u' :: 'e' :: rest => some (.bool true, rest)
  | 'f' :: 'a' :: 'l' :: 's' :: 'e' :: rest => some (.bool false, rest)
  | '"' :: rest => do
    let (pieces, rest) ← stringPieces [] rest
    return (.string pieces, rest)
  | text => do
    let (number, rest) ← number? text
    return (.number number, rest)

/-- Cuts a text into tokens, adding them to those before. Every token takes off a character at
least, so `n` tries are enough for a text of fewer characters. -/
def tokensUpTo : Nat → Array Token → List Char → Option (Array Token)
  | 0, _, _ => none
  | n + 1, before, text =>
    match text.dropWhile isSpace with
    | [] => some before
    | text =>
      match token? text with
      | some (t, rest) => tokensUpTo n (before.push t) rest
      | none => none

def tokens? (text : List Char) : Option (List Token) :=
  (tokensUpTo (text.length + 1) #[] text).map Array.toList

end SingleTape.Json
