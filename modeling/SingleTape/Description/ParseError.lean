import SingleTape.Description.Cursor
import SingleTape.Description.Rule

/-!
# Reports on texts that are no description

A report shows the line of the text, points at the place, and says what is wrong there.
-/

namespace SingleTape.Description

inductive ParseCause where
  /-- None of these rules matches at the place. -/
  | expected (rules : List Rule)
  /-- A count does not fit a machine word. -/
  | countTooLarge (token : String)
  /-- A direction is none of the letters for left and right. -/
  | unknownDirection (token : String)
deriving DecidableEq

/-- A place in a text, the text of its line, and what is wrong there. Lines and columns are
counted from one. -/
structure ParseError where
  line : Nat
  column : Nat
  excerpt : List Char
  cause : ParseCause
deriving DecidableEq

namespace ParseError

def showBreak (c : Char) : Char :=
  if c = '\r' then '\u240d' else if c = '\n' then '\u240a' else c

/-- The error at a position of a text. The excerpt is the line around it, which ends at a line
feed; its line breaks are left out, unless a rule failed just at one: then they are shown. -/
def ofPosition (text : List Char) (pos : Nat) (cause : ParseCause) : ParseError :=
  let before := text.take pos
  let after := text.drop pos
  let head := (before.reverse.takeWhile (· ≠ '\n')).reverse
  let line := head ++ after.takeWhile (· ≠ '\n') ++ (after.dropWhile (· ≠ '\n')).take 1
  let atBreak := after.head?.any isLineBreak
  let excerpt := match cause with
    | .expected _ => if atBreak then line.map showBreak else line.filter (!isLineBreak ·)
    | _ => line.filter (!isLineBreak ·)
  { line := 1 + before.count '\n', column := 1 + head.length, excerpt, cause }

/-- The names in a sentence: `a`, `a or b`, `a, b, or c`. -/
def alternatives : List String → String
  | [] => ""
  | [a] => a
  | [a, b] => a ++ " or " ++ b
  | names => ", ".intercalate names.dropLast ++ ", or " ++ names.getLastD ""

def message (e : ParseError) : String :=
  match e.cause with
  | .expected rules =>
    "expected " ++ alternatives ((Rule.all.filter (· ∈ rules)).map Rule.label)
  | .countTooLarge _ => "Invalid count: number too large to fit in target type"
  | .unknownDirection token => "Unsupported direction: " ++ token

def mark (e : ParseError) : List Char :=
  match e.cause with
  | .expected _ => ['^', '-', '-', '-']
  | .countTooLarge token | .unknownDirection token =>
    if token.length ≤ 1 then ['^'] else '^' :: List.replicate (token.length - 2) '-' ++ ['^']

/-- What stands below the excerpt: the mark, moved under the place. Tabs stay tabs. -/
def underline (e : ParseError) : List Char :=
  (e.excerpt.take (e.column - 1)).map (fun c => if c = '\t' then '\t' else ' ') ++ e.mark

def report (e : ParseError) : String :=
  let number := toString e.line
  let margin := String.ofList (List.replicate number.length ' ')
  "\n".intercalate
    [ margin ++ "--> " ++ number ++ ":" ++ toString e.column,
      margin ++ " |",
      number ++ " | " ++ String.ofList e.excerpt,
      margin ++ " | " ++ String.ofList e.underline,
      margin ++ " |",
      margin ++ " = " ++ e.message ]

end ParseError

end SingleTape.Description
