/-!
# Paths

The parts of a path, as text. Nothing here looks at any file.
-/

namespace SingleTape.Path

def splitAt (separator : Char) : List Char → List (List Char)
  | [] => [[]]
  | c :: rest =>
    if c = separator then [] :: splitAt separator rest
    else
      match splitAt separator rest with
      | [] => [[c]]
      | piece :: pieces => (c :: piece) :: pieces

def components (path : String) : List String :=
  ((splitAt '/' path.toList).filter (· ≠ [])).map String.ofList

def endsInSlash (path : String) : Bool := path.toList.getLast? = some '/'

def isAbsolute (path : String) : Bool := path.toList.head? = some '/'

def fileName (path : String) : String :=
  String.ofList (path.toList.reverse.takeWhile (· ≠ '/')).reverse

/-- A file name cut at its last dot. The parts are its stem and its extension; without a dot, or
with none but at its beginning, the whole name is the stem. -/
def splitExtension (name : String) : String × Option String :=
  let extension := (name.toList.reverse.takeWhile (· ≠ '.')).reverse
  match (name.toList.take (name.length - extension.length)).dropLast with
  | [] => (name, none)
  | stem => (String.ofList stem, some (String.ofList extension))

def stem (path : String) : String := (splitExtension (fileName path)).1

def extension? (path : String) : Option String := (splitExtension (fileName path)).2

def join (directory name : String) : String :=
  if endsInSlash directory then directory ++ name else directory ++ "/" ++ name

example : splitExtension "a.b.tm" = ("a.b", some "tm") := by decide

example : splitExtension ".tm" = (".tm", none) := by decide

end SingleTape.Path
