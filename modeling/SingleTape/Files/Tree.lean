import SingleTape.Files.Path
import SingleTape.Files.Store

/-!
# Files in memory

A file store that is a value: files and directories around a working directory, with the rules by
which paths lead to them. The directories above the working directory are there, and hold no more
than has been put into them.
-/

namespace SingleTape

namespace FileTree

/-- Where names are looked up: so many levels above the working directory, or at the root. -/
inductive Base where
  | above (levels : Nat)
  | root
deriving DecidableEq

/-- A place in the tree: a base, and the names that lead down from it. -/
structure Place where
  base : Base := .above 0
  names : List String := []
deriving DecidableEq

def Place.parent (p : Place) : Place :=
  match p.names, p.base with
  | [], .above n => { base := .above (n + 1) }
  | [], .root => p
  | names, _ => { p with names := names.dropLast }

def Place.child (p : Place) (name : String) : Place := { p with names := p.names ++ [name] }

inductive Entry where
  | file (bytes : ByteArray)
  | directory

end FileTree

open FileTree in
structure FileTree where
  entries : List (Place × Entry) := []

namespace FileTree

def at? (t : FileTree) (p : Place) : Option Entry :=
  if p.names = [] then some .directory else t.entries.lookup p

def isDirectoryAt (t : FileTree) (p : Place) : Bool :=
  match t.at? p with
  | some .directory => true
  | _ => false

def put (t : FileTree) (p : Place) (e : Entry) : FileTree :=
  { entries := (p, e) :: t.entries.filter (·.1 ≠ p) }

/-- Where a name leads from a place, which has to be a directory. -/
def enter (t : FileTree) (p : Place) (name : String) : Except OsError Place :=
  if !t.isDirectoryAt p then .error .notADirectory
  else if name = "." then .ok p
  else if name = ".." then .ok p.parent
  else if (t.at? (p.child name)).isSome then .ok (p.child name)
  else .error .notFound

def origin (path : String) : Place := if Path.isAbsolute path then { base := .root } else {}

/-- The place that a path leads to. A path that ends in a slash leads to a directory or nowhere. -/
def resolve (t : FileTree) (path : String) : Except OsError Place :=
  if path = "" then .error .notFound
  else
    let names := Path.components path
    (if Path.endsInSlash path then names ++ ["."] else names).foldlM t.enter (origin path)

def read (t : FileTree) (path : String) : Except OsError ByteArray := do
  match t.at? (← t.resolve path) with
  | some (.file bytes) => return bytes
  | some .directory => throw .isADirectory
  | none => throw .notFound

def hasPath (t : FileTree) (path : String) : Bool := (t.resolve path).isOk

def isDirectory (t : FileTree) (path : String) : Bool :=
  match t.resolve path with
  | .ok p => t.isDirectoryAt p
  | .error _ => false

def list (t : FileTree) (path : String) : Except OsError (List String) := do
  let p ← t.resolve path
  if !t.isDirectoryAt p then throw .notADirectory
  return (t.entries.filter fun e => e.1.names ≠ [] && e.1.parent = p).filterMap (·.1.names.getLast?)

/-- The tree with an empty file at a path. The directory around it has to be there, and a path to a
directory, or one that ends in a slash, is refused. -/
def create (t : FileTree) (path : String) : Except OsError FileTree := do
  match (Path.components path).getLast? with
  | none => throw (if path = "" then .notFound else .isADirectory)
  | some name =>
    let around ← (Path.components path).dropLast.foldlM t.enter (origin path)
    if !t.isDirectoryAt around then throw .notADirectory
    if name = "." ∨ name = ".." ∨ Path.endsInSlash path then throw .isADirectory
    let p := around.child name
    if t.isDirectoryAt p then throw .isADirectory
    return t.put p (.file .empty)

def append (t : FileTree) (path : String) (bytes : ByteArray) : FileTree :=
  match t.resolve path with
  | .error _ => t
  | .ok p =>
    match t.at? p with
    | some (.file before) => t.put p (.file (before ++ bytes))
    | _ => t

def insert (t : FileTree) (path : String) (e : Entry) : FileTree :=
  let names := (Path.components path).filter (· ≠ ".")
  let withParents := (List.range names.length).foldl (fun t n =>
    let p : Place := { names := names.take n }
    if (t.at? p).isSome then t else t.put p .directory) t
  if names = [] then t else withParents.put { names } e

instance : DirectoryStore (StateM FileTree) where
  read path := fun t => (t.read path, t)
  create path := fun t =>
    match t.create path with
    | .ok t => (.ok (), t)
    | .error e => (.error e, t)
  append path bytes := fun t => ((), t.append path bytes)
  hasPath path := fun t => (t.hasPath path, t)
  isDirectory path := fun t => (t.isDirectory path, t)
  list path := fun t => (t.list path, t)

end FileTree

end SingleTape
