import ClientGen.Files.Tree
import ClientGen.Template.Package

/-
  ClientGen.Output — writing the files of a package below a directory.

  Files are written one after the other, with the directories they need; the first that cannot be
  written ends the writing, and those before it stay. A file path must be relative.
-/

namespace ClientGen

inductive OutputError where
  | notRelative (path : String)
  | failed (action path : String) (cause : FileError)
  deriving DecidableEq, Repr

def OutputError.message : OutputError → String
  | .notRelative path => "Output error: Artifact path " ++ path ++ " must be relative to the output directory"
  | .failed action path cause => "Output error: Failed to " ++ action ++ " " ++ path ++ ": " ++ cause.message

/-- Steps that change the tree; a failure keeps what was changed before it. -/
abbrev Output := EStateM OutputError FileTree

namespace Output

def ensureDirectory (path : String) : Output Unit := do
  let (t, result) := (← get).ensureDirectory path
  set t
  match result with
  | .ok () => return ()
  | .error e => throw (.failed "create directory" path e)

def writeFile (action path content : String) : Output Unit := do
  match (← get).writeFile path content.toUTF8 with
  | .ok t => set t
  | .error e => throw (.failed action path e)

/-- Write a file that is not there yet, and say whether it was written. -/
def writeIfAbsent (path content : String) : Output Bool := do
  match (← get).isThere path with
  | .error e => throw (.failed "inspect" path e)
  | .ok true => return false
  | .ok false =>
    writeFile "write file" path content
    return true

def writeArtifact (directory : String) (a : Template.Artifact) : Output Unit := do
  if Path.isAbsolute a.path then throw (.notRelative a.path)
  let target := Path.join directory a.path
  match Path.parent? target with
  | some parent => ensureDirectory parent
  | none => pure ()
  writeFile "create file" target a.content

/-- Write all files, and say how many they are. -/
def writeArtifacts (directory : String) (artifacts : List Template.Artifact) : Output Nat := do
  artifacts.forM (writeArtifact directory)
  return artifacts.length

end Output

end ClientGen
