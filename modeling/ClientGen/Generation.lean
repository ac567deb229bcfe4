import ClientGen.Go.Package
import ClientGen.Template.Package

/-
  ClientGen.Generation — from a document to the files of a package.

  The configuration is checked first. Then the model is built, its values for the templates are
  made, and the templates are rendered. What degraded on the way is kept beside the files; the
  first failure ends the run.
-/

namespace ClientGen

inductive ConfigError where
  | noPackage
  | packageName (name : String)
  | serviceName (name : String)
  | noModule
  /-- A package may not be named by a keyword of Go. -/
  | keyword (name : String)
  deriving DecidableEq, Repr

def ConfigError.message : ConfigError → String
  | .noPackage => "Validation error: Package name is required"
  | .packageName name => "Validation error: Package name '" ++ name ++ "' is not a valid identifier"
  | .serviceName name => "Validation error: Service name '" ++ name ++ "' is not a valid identifier"
  | .noModule => "Validation error: Module path is required"
  | .keyword name => "Validation error: Package name '" ++ name ++ "' is a Go keyword"

namespace Config

def check (c : Config) : Except ConfigError Unit :=
  if c.package.isEmpty then .error .noPackage
  else if !Name.isIdentifier c.package then .error (.packageName c.package)
  else if !Name.isIdentifier c.service then .error (.serviceName c.service)
  else .ok ()

end Config

/-- What a package is generated with, beside the document. -/
structure Settings where
  config : Config
  modulePath : String
  /-- Values for templates beside those of the package. -/
  custom : KeyMap Json

namespace Settings

def check (s : Settings) : Except ConfigError Unit := do
  s.config.check
  if Unicode.isBlankText s.modulePath then .error .noModule

end Settings

inductive GenerationError where
  | config (cause : ConfigError)
  | build (cause : BuildError)
  | render (cause : Template.RenderError)
  deriving DecidableEq, Repr

def GenerationError.message : GenerationError → String
  | .config cause => cause.message
  | .build cause => cause.message
  | .render cause => cause.message

/-- The values for the templates of a model. -/
def packageValues (m : ApiModel) (doc : Document) (s : Settings) : Except GenerationError (KeyMap Json) :=
  if Go.isKeyword m.package then .error (.config (.keyword m.package))
  else .ok (Go.templateData m doc s.modulePath s.custom)

structure Generated where
  artifacts : List Template.Artifact
  model : ApiModel
  diagnostics : List Diagnostic

def generate (fuel : Nat) (doc : Document) (s : Settings) : Except GenerationError Generated := do
  s.check.mapError .config
  let (model, diagnostics) ← (build fuel doc s.config).mapError .build
  let values ← packageValues model doc s
  let artifacts ← (Template.renderPackage (.obj values)).mapError .render
  return ⟨artifacts, model, diagnostics⟩

end ClientGen
