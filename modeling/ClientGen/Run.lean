import ClientGen.Document.Source
import ClientGen.Output
import ClientGen.Request

/-
  ClientGen.Run — a whole run, from a request to the files on the tree.

  The request is checked and the document is read first. Then the output directory is made, and a
  module file in it unless there is one: it is the user's from then on. After that the package is
  generated and its files are written over those that are there. A failure ends the run and keeps
  what was written before it.
-/

namespace ClientGen

inductive RunError where
  | request (cause : RequestError)
  | unreadable (source : String) (cause : FileError)
  | document (cause : DocumentError)
  | generation (cause : GenerationError)
  | output (cause : OutputError)
  deriving DecidableEq, Repr

def RunError.message : RunError → String
  | .request cause => "Validation error: " ++ cause.message
  | .unreadable source cause =>
    "Generation error: OpenAPI loading error: Failed to read " ++ source ++ ": " ++ cause.message
  | .document cause => "Generation error: " ++ cause.message
  | .generation cause => "Generation error: " ++ cause.message
  | .output cause => cause.message

structure Report where
  artifacts : Nat
  directory : String
  groupings : List String
  diagnostics : List Diagnostic
  moduleCreated : Bool
  /-- The command that formats the files; how it ends does not matter to the run. -/
  formatter : Option String

def asciiLower (s : String) : String := s.map Char.toLower

/-- The document at a path; the extension says how it is written. -/
def loadDocument (t : FileTree) (source : String) : Except RunError Document := do
  let text ← (t.readText source).mapError (.unreadable source)
  (Document.ofText text ((Path.extension? source).map asciiLower)).mapError .document

def moduleFile (modulePath : String) : String := "module " ++ modulePath ++ "\n\ngo 1.21\n"

/-- Steps of a run on the tree. -/
abbrev Run := EStateM RunError FileTree

namespace Run

def lift (e : Except RunError α) : Run α :=
  match e with
  | .ok a => pure a
  | .error e => throw e

def output (step : Output α) : Run α := fun t =>
  match step t with
  | .ok a t => .ok a t
  | .error e t => .error (.output e) t

def execute (fuel : Nat) (r : Request) : Run Report := do
  lift (r.check.mapError .request)
  let doc ← lift (loadDocument (← get) r.source)
  output (Output.ensureDirectory r.directory)
  let created ← output (Output.writeIfAbsent (Path.join r.directory "go.mod") (moduleFile r.modulePath))
  let generated ← lift ((generate fuel doc r.settings).mapError .generation)
  let count ← output (Output.writeArtifacts r.directory generated.artifacts)
  return ⟨count, r.directory, generated.model.groupingNames, generated.diagnostics, created, r.formatter⟩

end Run

end ClientGen
