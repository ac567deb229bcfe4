import ClientGen.Build.Model
import ClientGen.Go.Method
import ClientGen.Go.Query

/-
  ClientGen.Go.Package — a model as the files of a Go package, and the values for its templates.

  Every grouping is a file with a service; the shared declarations are another. The file name of
  a grouping ends in `_api`, which keeps tags such as `test` or `linux` clear of names that Go
  treats specially.
-/

namespace ClientGen.Go

def declaration (m : ApiModel) : Declaration → GoDeclaration
  | .type d => typeDeclaration d
  | .enumeration d => enumDeclaration d
  | .sum d => sumDeclaration d
  | .queryEncoder d => queryEncoder m d

def declarationImports (m : ApiModel) : Declaration → List String
  | .type d => typeDeclImports d
  | .enumeration _ => []
  | .sum d => sumImports d
  | .queryEncoder d => queryEncoderImports m d

/-- Import paths in order, each once. -/
def importList (paths : List String) : List String := KeyMap.keys (KeyMap.ofList (paths.map fun p => (p, ())))

def serviceTypeName (g : Grouping) : String := g.name ++ "Service"

def groupingFile (m : ApiModel) (g : Grouping) : File :=
  let doc := (serviceTypeName g ++ " groups the operations tagged " ++ g.tag ++ ".") ::
    match g.description with
    | none => []
    | some d => "" :: Text.commentLines d
  { name := Name.snake g.name ++ "_api.go"
    imports := importList <|
      g.declarations.flatMap (declarationImports m) ++
        (if g.methods.isEmpty then [] else ["context", "net/http"]) ++ g.methods.flatMap methodImports
    declarations := g.declarations.map (declaration m)
    service := some ⟨g.name, serviceTypeName g, doc, g.methods.map (method m)⟩ }

def sharedFile (m : ApiModel) : File :=
  { name := "types.go"
    imports := importList (m.shared.flatMap (declarationImports m))
    declarations := m.shared.map (declaration m)
    service := none }

/-- The address of the first server, without slashes at its end. -/
def baseUrl (doc : Document) : String :=
  match doc.servers with
  | [] => ""
  | server :: _ => String.ofList (Unicode.dropRight (· == '/') server.url.toList)

/-- What a package hands to templates, by the names they use. -/
def ownValues (m : ApiModel) (doc : Document) (modulePath : String) : List (String × Json) := [
  ("package", .str m.package),
  ("module", .str modulePath),
  ("service", .str m.service),
  ("title", .str (Text.singleLine m.title)),
  ("version", .str m.version),
  ("doc_lines", Json.ofTexts (plainDoc m.description)),
  ("base_url", .str (literal (baseUrl doc))),
  ("user_agent", .str (literal (m.package ++ "-go/" ++ m.version))),
  ("services", .arr (m.groupings.map fun g =>
    Json.object [("name", .str g.name), ("type_name", .str (serviceTypeName g))])),
  ("groupings", .arr (m.groupings.map fun g => (groupingFile m g).toJson)),
  ("shared", (sharedFile m).toJson)]

/-- The values that templates see, in order of their names. Custom variables do not override. -/
def templateData (m : ApiModel) (doc : Document) (modulePath : String) (custom : KeyMap Json) : KeyMap Json :=
  KeyMap.ofList (custom ++ ownValues m doc modulePath)

/-- A package may not be named by a keyword. -/
def isKeyword (name : String) : Bool := keywords.contains name

end ClientGen.Go
