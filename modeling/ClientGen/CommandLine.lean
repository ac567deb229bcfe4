import ClientGen.Command.Shell
import ClientGen.Run

/-
  ClientGen.CommandLine — the command line of the program.

  There is one command, `generate`, with the path of the document and options. An option is
  followed by its value or has it behind an equals sign; each is given at most once, and a value that
  starts with a hyphen only fits behind the sign. Arguments are taken in order: asking for help ends
  the reading, and so does the first mistake.
-/

namespace ClientGen

inductive Invocation where
  | generate (r : Request)
  /-- Help or the version is asked for. -/
  | information
  /-- The arguments make no sense. -/
  | misused
  deriving DecidableEq, Repr

namespace CommandLine

/-- What the arguments of `generate` say so far. -/
structure Given where
  source : Option String
  options : List (String × String)
  skipFormat : Bool

/-- Options with a value; the directory may not be empty. -/
def valueOptions : List String := ["out", "module", "package", "name", "format-command"]

def Given.set (g : Given) (option value : String) : Option Given :=
  if !valueOptions.contains option || (g.options.lookup option).isSome || (option = "out" && value.isEmpty) then none
  else some { g with options := (option, value) :: g.options }

def Given.setSource (g : Given) (source : String) : Option Given :=
  if g.source.isSome then none else some { g with source := some source }

def Given.request? (g : Given) : Option Request := do
  return {
    source := ← g.source
    directory := ← g.options.lookup "out"
    modulePath := ← g.options.lookup "module"
    package := ← g.options.lookup "package"
    client := g.options.lookup "name"
    formatCommand := g.options.lookup "format-command"
    skipFormat := g.skipFormat }

def isHyphenated (word : String) : Bool :=
  match word.toList with
  | '-' :: _ :: _ => true
  | _ => false

/-- The name of a long option and the value behind an equals sign. -/
def longOption? (word : String) : Option (String × Option String) :=
  match word.toList with
  | '-' :: '-' :: c :: cs =>
    let name := (c :: cs).takeWhile (· != '=')
    let value := ((c :: cs).drop name.length).drop 1
    some (String.ofList name, if name.length < (c :: cs).length then some (String.ofList value) else none)
  | _ => none

def finish (g : Option Given) : Invocation := ((g.bind Given.request?).map .generate).getD .misused

def readGenerate (g : Given) : List String → Invocation
  | [] => finish g
  | "--" :: rest => finish (rest.foldlM Given.setSource g)
  | word :: rest =>
    match longOption? word with
    | some ("help", none) => .information
    | some ("skip-format", none) => if g.skipFormat then .misused else readGenerate { g with skipFormat := true } rest
    | some (option, some value) =>
      match g.set option value with
      | some g => readGenerate g rest
      | none => .misused
    | some (option, none) =>
      match rest with
      | value :: rest =>
        if isHyphenated value then .misused
        else
          match g.set option value with
          | some g => readGenerate g rest
          | none => .misused
      | [] => .misused
    | none =>
      if isHyphenated word then if (word.toList.drop 1).head? = some 'h' then .information else .misused
      else
        match g.setSource word with
        | some g => readGenerate g rest
        | none => .misused

/-- The command that help is asked for. -/
def readHelp : List String → Invocation
  | [] | ["generate"] | ["help"] => .information
  | _ => .misused

def read : List String → Invocation
  | "generate" :: rest => readGenerate ⟨none, [], false⟩ rest
  | "help" :: rest => readHelp rest
  | "--help" :: _ | "--version" :: _ => .information
  | word :: _ =>
    match word.toList with
    | '-' :: c :: _ => if c = 'h' || c = 'V' then .information else .misused
    | _ => .misused
  | [] => .misused

/-! ## Running -/

structure Exit where
  code : Nat
  /-- What failed, and why. -/
  failure : Option (String × String)

/-- A cause that has a cause of its own is numbered. -/
def causeLine : RunError → String
  | .output cause => cause.message
  | e => "0: " ++ e.message

/-- Generate, and format what was written if a formatter can be run. -/
def generate (fuel : Nat) (r : Request) (t : FileTree) : FileTree × Exit :=
  match Run.execute fuel r t with
  | .error e t => (t, ⟨1, some ("Error: Failed to generate SDK from " ++ r.source, causeLine e)⟩)
  | .ok report t =>
    match report.formatter with
    | none => (t, ⟨0, none⟩)
    | some command => ((runCommand Shell.programs t report.directory command).1, ⟨0, none⟩)

/-- The program: what its arguments do to the tree, and how it ends. -/
def run (fuel : Nat) (arguments : List String) (t : FileTree) : FileTree × Exit :=
  match read arguments with
  | .generate r => generate fuel r t
  | .information => (t, ⟨0, none⟩)
  | .misused => (t, ⟨2, none⟩)

end CommandLine

end ClientGen
