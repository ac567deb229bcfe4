import ClientGen.Document.Decode
import ClientGen.Json.Reader
import ClientGen.Json.Writer
import ClientGen.Yaml.Reader

/-
  ClientGen.Document.Source — from the text of a document to the document.

  The hint, usually the file extension, decides between JSON and YAML; without one JSON is tried
  first. Before a value is decoded it must say that it is a 3.x document and have a title and
  a version; a version written as a number is kept as its text.
-/

namespace ClientGen

inductive DocumentError where
  | malformedJson
  | malformedYaml
  /-- Neither JSON nor YAML. -/
  | malformed
  | missingOpenapi
  | unsupportedOpenapi (version : String)
  | missingTitle
  | missingVersion
  | invalid
  deriving DecidableEq, Repr

def DocumentError.message : DocumentError → String
  | .malformedJson => "Serialization error: the text is not JSON"
  | .malformedYaml => "OpenAPI loading error: Failed to parse YAML: the text is not YAML"
  | .malformed => "OpenAPI loading error: Failed to parse API document: the text is neither JSON nor YAML"
  | .missingOpenapi => "Validation error: Missing OpenAPI version"
  | .unsupportedOpenapi version => "Validation error: Unsupported OpenAPI version " ++ version ++ ", expected 3.x"
  | .missingTitle => "Validation error: Missing info.title"
  | .missingVersion => "Validation error: Missing info.version"
  | .invalid => "OpenAPI loading error: Invalid API document: a value does not fit its place"

/-- The value of a text, by the hint on its format. -/
def readSource (text : String) (hint : Option String) : Except DocumentError Json :=
  if hint = some "json" then (Json.read? text).elim (.error .malformedJson) .ok
  else if hint = some "yaml" ∨ hint = some "yml" then (Yaml.read? text).elim (.error .malformedYaml) .ok
  else ((Json.read? text).or (Yaml.read? text)).elim (.error .malformed) .ok

namespace Document

def sourceVersion? (v : Json) : Option String := (v.get? "openapi").bind Json.str?

def sourceTitle? (v : Json) : Option String := ((v.get? "info").bind (·.get? "title")).bind Json.str?

/-- A number as its text; every other value unchanged. -/
def numberAsText : Json → Json
  | .int n => .str (Json.write (.int n))
  | .float x => .str (Json.write (.float x))
  | v => v

/-- Change the value of a key, if it is there. -/
def modifyKey (key : String) (f : Json → Json) : Json → Json
  | .obj fields => .obj (KeyMap.modify key f fields)
  | v => v

def ofJson (v : Json) : Except DocumentError Document :=
  match sourceVersion? v with
  | none => .error .missingOpenapi
  | some version =>
    if !"3.".toList.isPrefixOf version.toList then .error (.unsupportedOpenapi version)
    else if (sourceTitle? v).isNone then .error .missingTitle
    else if ((v.get? "info").bind (·.get? "version")).isNone then .error .missingVersion
    else (decode? (modifyKey "info" (modifyKey "version" numberAsText) v)).elim (.error .invalid) .ok

def ofText (text : String) (hint : Option String) : Except DocumentError Document :=
  readSource text hint >>= ofJson

end Document

end ClientGen
