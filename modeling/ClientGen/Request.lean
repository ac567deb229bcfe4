import ClientGen.Document.Decode
import ClientGen.Generation

/-
  ClientGen.Request — what a run is asked to do.

  The client is named after the package unless a name is given. The files are formatted after
  writing, unless that is turned off or the command is blank.
-/

namespace ClientGen

structure Request where
  /-- Path of the document. -/
  source : String
  directory : String
  modulePath : String
  package : String
  client : Option String
  formatCommand : Option String
  skipFormat : Bool
  deriving DecidableEq, Repr

inductive RequestError where
  | missing (field : String)
  | noPackage
  | packageName (name : String)
  | clientName (name : String)
  deriving DecidableEq, Repr

def RequestError.message : RequestError → String
  | .missing field => "Missing required field: " ++ field
  | .noPackage => "Package name cannot be empty"
  | .packageName name => "Invalid package name: " ++ name
  | .clientName name => "Invalid client name: " ++ name

namespace Request

def check (r : Request) : Except RequestError Unit :=
  if Unicode.isBlankText r.source then .error (.missing "spec path")
  else if Unicode.isBlankText r.modulePath then .error (.missing "module")
  else if r.package.isEmpty then .error .noPackage
  else if !Name.isIdentifier r.package then .error (.packageName r.package)
  else
    match r.client with
    | none => .ok ()
    | some name => if Name.isIdentifier name then .ok () else .error (.clientName name)

def config (r : Request) : Config := ⟨r.package, r.client.getD (Name.proper r.package)⟩

def settings (r : Request) : Settings := ⟨r.config, r.modulePath, []⟩

def defaultFormatCommand : String := "gofmt -w ."

/-- The command that is asked for, which may be blank. -/
def effectiveFormatCommand (r : Request) : Option String :=
  if r.skipFormat then none else some (r.formatCommand.getD defaultFormatCommand)

/-- The command to run in the output directory after writing. -/
def formatter (r : Request) : Option String := r.effectiveFormatCommand.filter (!Unicode.isBlankText ·)

def keyOrder : List String :=
  ["spec_path", "output_dir", "module", "package", "name", "format_command", "skip_format"]

def decode? (v : Json) : Option Request := do
  let fields ← v.structFields? keyOrder 6
  return {
    source := ← Json.required? Json.str? fields "spec_path"
    directory := ← Json.required? Json.str? fields "output_dir"
    modulePath := ← Json.required? Json.str? fields "module"
    package := ← Json.required? Json.str? fields "package"
    client := ← Json.optional? Json.str? fields "name"
    formatCommand := ← Json.optional? Json.str? fields "format_command"
    skipFormat := ← Json.defaulted? Json.bool? false fields "skip_format" }

end Request

end ClientGen
