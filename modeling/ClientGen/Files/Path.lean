/-
  ClientGen.Files.Path — paths as texts.

  A path is a list of names between slashes. Empty names and `.` mean nothing, except that a path
  may start with `.` and that one which starts with a slash is absolute. What is asked of a path here
  looks at its text only.
-/

namespace ClientGen.Path

def segments (path : String) : List String := (path.toList.splitOn '/').map String.ofList

def ofSegments (names : List String) : String := "/".intercalate names

def isAbsolute (path : String) : Bool := path.toList.head? == some '/'

/-- Something behind it is part of the path. -/
def endsInSlash (path : String) : Bool := path.toList.getLast? == some '/'

/-- `path` as seen from `base`. -/
def join (base path : String) : String :=
  if isAbsolute path || base.isEmpty then path
  else if endsInSlash base then base ++ path
  else base ++ "/" ++ path

/-- Without the names at the end that mean nothing. -/
def trimmed (names : List String) : List String :=
  (names.reverse.dropWhile fun n => n.isEmpty || n == ".").reverse

/-- The path up to its last name, unless it has none. -/
def parent? (path : String) : Option String :=
  match segments path with
  | [] => none
  | first :: more =>
    let names := trimmed more
    if names.isEmpty then if first.isEmpty then none else some ""
    else
      let before := trimmed names.dropLast
      some (if first.isEmpty && before.isEmpty then "/" else ofSegments (first :: before))

/-- What the last name has behind its last dot, if that dot does not start the name. -/
def extension? (path : String) : Option String :=
  match segments path with
  | [] => none
  | first :: more =>
    let name := (trimmed more).getLast?.getD first
    let reversed := name.toList.reverse
    match reversed.dropWhile (· != '.') with
    | _ :: _ :: _ => if name = ".." then none else some (String.ofList (reversed.takeWhile (· != '.')).reverse)
    | _ => none

end ClientGen.Path
