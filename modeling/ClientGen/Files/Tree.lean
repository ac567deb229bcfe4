import ClientGen.Files.Path
import ClientGen.KeyMap
import ClientGen.Text.Utf8

/-
  ClientGen.Files.Tree — the files and directories that a run can see.

  A tree maps places to entries; the place of an entry is the names that lead to it, joined. The
  top of the tree is always there. A path is followed name by name: every name but the last must
  be a directory, and `..` goes back up. What fails leaves the tree as it is, except that the
  directories made on the way to another one stay.
-/

namespace ClientGen

inductive Entry where
  | directory
  | file (content : ByteArray)

abbrev FileTree := KeyMap Entry

inductive FileError where
  | notFound
  | exists
  | notDirectory
  | isDirectory
  | nameTooLong
  | denied
  | zeroInName
  /-- The bytes of the file are no text. -/
  | notText
  deriving DecidableEq, Repr

def FileError.message : FileError → String
  | .notFound => "No such file or directory (os error 2)"
  | .exists => "File exists (os error 17)"
  | .notDirectory => "Not a directory (os error 20)"
  | .isDirectory => "Is a directory (os error 21)"
  | .nameTooLong => "File name too long (os error 36)"
  | .denied => "Permission denied (os error 13)"
  | .zeroInName => "file name contained an unexpected NUL byte"
  | .notText => "stream did not contain valid UTF-8"

namespace FileTree

/-- The names that lead to an entry. The place of an absolute path starts with an empty name. -/
abbrev Place := List String

def isTop (p : Place) : Bool := p.all String.isEmpty

def entryAt? (t : FileTree) (p : Place) : Option Entry :=
  if isTop p then some .directory else KeyMap.get? t (Path.ofSegments p)

def put (t : FileTree) (p : Place) (e : Entry) : FileTree := KeyMap.insert (Path.ofSegments p) e t

def longestName : Nat := 255

def longestPath : Nat := 4095

/-- What must be a directory for a path to go on behind it. -/
def requireDirectory (t : FileTree) (p : Place) : Except FileError Unit :=
  match t.entryAt? p with
  | some .directory => .ok ()
  | some (.file _) => .error .notDirectory
  | none => .error .notFound

/-- Follow names from a place. -/
def follow (t : FileTree) (p : Place) : List String → Except FileError Place
  | [] => .ok p
  | name :: rest => do
    requireDirectory t p
    if name = "." then follow t p rest
    else if name = ".." then follow t (if isTop p then p else p.dropLast) rest
    else if longestName < name.utf8ByteSize then .error .nameTooLong
    else follow t (p ++ [name]) rest

/-- Where a path starts, and its names. -/
def names (path : String) : Except FileError (Place × List String) :=
  if path.toList.contains '\x00' then .error .zeroInName
  else if longestPath < path.utf8ByteSize then .error .nameTooLong
  else if path.isEmpty then .error .notFound
  else .ok (if Path.isAbsolute path then [""] else [], (Path.segments path).filter (!·.isEmpty))

def stat (t : FileTree) (path : String) : Except FileError Entry := do
  let (top, ns) ← names path
  let p ← follow t top ns
  match t.entryAt? p with
  | none => .error .notFound
  | some (.file content) => if Path.endsInSlash path then .error .notDirectory else .ok (.file content)
  | some .directory => .ok .directory

def isDirectory (t : FileTree) (path : String) : Bool :=
  match t.stat path with
  | .ok .directory => true
  | _ => false

/-- Whether anything is there; it may also be impossible to tell. -/
def isThere (t : FileTree) (path : String) : Except FileError Bool :=
  match t.stat path with
  | .ok _ => .ok true
  | .error .notFound => .ok false
  | .error e => .error e

def readBytes (t : FileTree) (path : String) : Except FileError ByteArray := do
  match ← t.stat path with
  | .file content => .ok content
  | .directory => .error .isDirectory

def readText (t : FileTree) (path : String) : Except FileError String := do
  match Utf8.decode? (← t.readBytes path) with
  | some text => .ok text
  | none => .error .notText

/-- The names in a directory, in order. -/
def namesIn (t : FileTree) (path : String) : Except FileError (List String) := do
  let (top, ns) ← names path
  let p ← follow t top ns
  requireDirectory t p
  return t.filterMap fun (key, _) =>
    let place := Path.segments key
    if place.dropLast = p then place.getLast? else none

/-- The directory that a new last name of a path goes to, and the name. -/
def newName (t : FileTree) (path : String) (taken : FileError) : Except FileError (Place × String) := do
  let (top, ns) ← names path
  match ns.getLast? with
  | none => .error taken
  | some name =>
    let p ← follow t top ns.dropLast
    requireDirectory t p
    if name = "." ∨ name = ".." then .error taken
    else if longestName < name.utf8ByteSize then .error .nameTooLong
    else .ok (p, name)

def writeFile (t : FileTree) (path : String) (content : ByteArray) : Except FileError FileTree := do
  let (p, name) ← newName t path .isDirectory
  if Path.endsInSlash path then .error .isDirectory
  else
    match t.entryAt? (p ++ [name]) with
    | some .directory => .error .isDirectory
    | _ => .ok (t.put (p ++ [name]) (.file content))

def makeDirectory (t : FileTree) (path : String) : Except FileError FileTree := do
  let (p, name) ← newName t path .exists
  match t.entryAt? (p ++ [name]) with
  | some _ => .error .exists
  | none => .ok (t.put (p ++ [name]) .directory)

/-- Make a directory, or find it made. -/
def makeOrFind (t : FileTree) (path : String) : FileTree × Except FileError Unit :=
  match makeDirectory t path with
  | .ok t => (t, .ok ())
  | .error e => if isDirectory t path then (t, .ok ()) else (t, .error e)

/-- Make a directory and those above it that are missing, at most `steps` of them. -/
def makeDirectories (t : FileTree) (path : String) : Nat → FileTree × Except FileError Unit
  | 0 => (t, .error .notFound)
  | steps + 1 =>
    if path.isEmpty then (t, .ok ())
    else
      match makeDirectory t path, Path.parent? path with
      | .error .notFound, none => (t, .error .notFound)
      | .error .notFound, some parent =>
        match makeDirectories t parent steps with
        | (t, .error e) => (t, .error e)
        | (t, .ok ()) => makeOrFind t path
      | _, _ => makeOrFind t path

/-- Make a directory and all those above it. -/
def ensureDirectory (t : FileTree) (path : String) : FileTree × Except FileError Unit :=
  t.makeDirectories path (path.length + 2)

end FileTree

end ClientGen
