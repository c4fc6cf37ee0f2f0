import SingleTape.Machine.Basic
import SingleTape.Text.Decimal

/-!
# Command line arguments

The arguments of a session are options with a value and switches. Each may be given once, by its
word after two dashes or by its letter after one. Letters of switches may be joined to those of
others, and the value of an option follows as the next argument, or in the same one, there with or
without an equals sign after a letter and always with one after a word.
-/

namespace SingleTape.CommandLine

inductive Key where
  | input
  | program
  | output
  | words
  | console
  | maxSteps
  | empty
deriving DecidableEq

inductive Switch where
  | debug
  | json
deriving DecidableEq

namespace Key

def all : List Key := [input, program, output, words, console, maxSteps, empty]

def word : Key → String
  | input => "input"
  | program => "program"
  | output => "output"
  | words => "words"
  | console => "console"
  | maxSteps => "max-steps"
  | empty => "empty"

def letter : Key → Char
  | input => 'i'
  | program => 'p'
  | output => 'o'
  | words => 'w'
  | console => 'c'
  | maxSteps => 'm'
  | empty => 'e'

/-- Whether the empty text is no value for the option, because it is the path of no file. -/
def isPath : Key → Bool
  | input | output | words => true
  | _ => false

end Key

namespace Switch

def all : List Switch := [debug, json]

def word : Switch → String
  | debug => "debug"
  | json => "json"

def letter? : Switch → Option Char
  | debug => some 'd'
  | json => none

end Switch

inductive Item where
  | value (k : Key) (v : String)
  | switch (s : Switch)
deriving DecidableEq

structure Reading where
  items : List Item := []
  pending : Option Key := none

def readLetters : List Char → Option Reading
  | [] => some {}
  | c :: rest =>
    match Switch.all.find? (·.letter? = some c) with
    | some s => (readLetters rest).map fun r => { r with items := .switch s :: r.items }
    | none =>
      match Key.all.find? (·.letter = c), rest with
      | some k, [] => some { pending := some k }
      | some k, '=' :: value => some { items := [.value k (String.ofList value)] }
      | some k, value => some { items := [.value k (String.ofList value)] }
      | none, _ => none

def readWord (word : String) (value : Option String) : Option Reading :=
  match Key.all.find? (·.word = word), value with
  | some k, some v => some { items := [.value k v] }
  | some k, none => some { pending := some k }
  | none, none => (Switch.all.find? (·.word = word)).map fun s => { items := [.switch s] }
  | none, some _ => none

/-- What an argument says. There are no arguments but options. -/
def readArgument (argument : String) : Option Reading :=
  match argument.toList with
  | '-' :: '-' :: rest =>
    let word := String.ofList (rest.takeWhile (· ≠ '='))
    match rest.dropWhile (· ≠ '=') with
    | [] => readWord word none
    | _ :: value => readWord word (some (String.ofList value))
  | '-' :: c :: rest => readLetters (c :: rest)
  | _ => none

/-- Whether an argument can be the value of the option before it: it does not begin with a dash,
unless it is just one. -/
def canBeValue (argument : String) : Bool :=
  argument.toList.head? ≠ some '-' || argument = "-"

def readArguments : List String → Option (List Item)
  | [] => some []
  | ["--"] => some []
  | argument :: rest =>
    match readArgument argument with
    | none => none
    | some { items, pending := none } => (readArguments rest).map (items ++ ·)
    | some { items, pending := some k } =>
      match rest with
      | [] => none
      | value :: rest =>
        if canBeValue value then (readArguments rest).map (items ++ .value k value :: ·) else none

inductive ProgramSource where
  | file (path : String)
  | builtIn (name : String)
deriving DecidableEq

inductive WordSource where
  | standardInput
  | file (path : String)
  | single (word : String)
deriving DecidableEq

structure Options where
  program : ProgramSource
  words : WordSource := .standardInput
  output : Option String := none
  settings : Settings := {}
  debug : Bool := false
  json : Bool := false
deriving DecidableEq

def valuesOf (items : List Item) (k : Key) : List String :=
  items.filterMap fun
    | .value k' v => if k' = k then some v else none
    | .switch _ => none

/-- The value of an option, `none` inside if it is not given, and nothing if it is given twice or
has no proper value. -/
def valueOf (items : List Item) (k : Key) : Option (Option String) :=
  match valuesOf items k with
  | [] => some none
  | [v] => if k.isPath && v = "" then none else some (some v)
  | _ => none

def isOn (items : List Item) (s : Switch) : Option Bool :=
  match items.filter (· = .switch s) with
  | [] => some false
  | [_] => some true
  | _ => none

def readSteps (text : String) : Option Nat :=
  match text.toList with
  | '+' :: digits => Text.word? digits
  | digits => Text.word? digits

/-- What the arguments ask for. There has to be one program, and words from one place at most. -/
def Options.ofArguments (arguments : List String) : Option Options := do
  let items ← readArguments arguments
  let program ← match ← valueOf items .input, ← valueOf items .program with
    | some path, none => some (ProgramSource.file path)
    | none, some name => some (ProgramSource.builtIn name)
    | _, _ => none
  let words ← match ← valueOf items .words, ← valueOf items .console with
    | none, none => some WordSource.standardInput
    | some path, none => some (WordSource.file path)
    | none, some word => some (WordSource.single word)
    | _, _ => none
  let usual : Settings := {}
  let budget ← match ← valueOf items .maxSteps with
    | none => some usual.budget
    | some text => readSteps text
  let blank := (← valueOf items .empty).getD usual.blank
  return { program, words, output := ← valueOf items .output, settings := { blank, budget },
           debug := ← isOn items .debug, json := ← isOn items .json }

end SingleTape.CommandLine
