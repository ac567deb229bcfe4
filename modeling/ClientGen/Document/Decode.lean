import ClientGen.Document.Basic

/-
  ClientGen.Document.Decode — from a JSON value to a document.

  - Unknown keys are ignored; an operation keeps them as extensions.
  - A missing optional key and a `null` are the same. A key with a default may be missing but
    not `null`. A value of the wrong kind makes the whole document invalid.
  - An object without extensions may also be written as the array of its values, in the order of
    its keys: all of them, except that keys with a default may be left off at the end.
  - Where a reference or an item may stand, an object with a string as its `$ref` is a reference.
-/

namespace ClientGen

namespace Json

/-- The fields of an object, or of the array that lists the values of `keys`, of which all
    but the first `due` have defaults. -/
def structFields? (keys : List String) (due : Nat) : Json → Option (KeyMap Json)
  | .obj fields => some fields
  | .arr items => if due ≤ items.length ∧ items.length ≤ keys.length then some (keys.zip items) else none
  | _ => none

def required? (decode : Json → Option α) (fields : KeyMap Json) (key : String) : Option α :=
  (KeyMap.get? fields key).bind decode

def optional? (decode : Json → Option α) (fields : KeyMap Json) (key : String) : Option (Option α) :=
  match KeyMap.get? fields key with
  | none => some none
  | some .null => some none
  | some v => (decode v).map some

def defaulted? (decode : Json → Option α) (default : α) (fields : KeyMap Json) (key : String) : Option α :=
  match KeyMap.get? fields key with
  | none => some default
  | some v => decode v

def listOf? (decode : Json → Option α) : Json → Option (List α)
  | .arr items => items.mapM decode
  | _ => none

def mapOf? (decode : Json → Option α) : Json → Option (KeyMap α)
  | .obj fields => fields.mapM fun (k, v) => (decode v).map (k, ·)
  | _ => none

/-- A choice among names: the name itself, or an object with that one key and nothing in it. -/
def choice? (ofName? : String → Option α) : Json → Option α
  | .str name => ofName? name
  | .obj [(name, .null)] => ofName? name
  | _ => none

end Json

/-! ## Schemas -/

def TypeKeyword.decode? : Json → Option TypeKeyword
  | .str t => some (.single t)
  | .arr items => (items.mapM Json.str?).map .several
  | _ => none

namespace Schema

/-- The keys of a schema, in the order of its array form. -/
def keyOrder : List String :=
  ["$ref", "type", "format", "title", "description", "items", "properties", "required", "enum",
    "additionalProperties", "allOf", "oneOf", "anyOf", "nullable", "deprecated"]

def withText (set : Option String → Schema) : Json → Option Schema
  | .null => some (set none)
  | .str s => some (set (some s))
  | _ => none

def withFlag (set : Option Bool → Schema) : Json → Option Schema
  | .null => some (set none)
  | .bool b => some (set (some b))
  | _ => none

/-- Take a keyword that holds no schema into the schema read so far. -/
def setPlain? (s : Schema) (key : String) (v : Json) : Option Schema :=
  match key with
  | "$ref" => withText (fun x => { s with reference := x }) v
  | "format" => withText (fun x => { s with format := x }) v
  | "title" => withText (fun x => { s with title := x }) v
  | "description" => withText (fun x => { s with description := x }) v
  | "nullable" => withFlag (fun x => { s with nullable := x }) v
  | "deprecated" => withFlag (fun x => { s with deprecated := x }) v
  | "required" => v.strings?.map fun x => { s with required := x }
  | "type" =>
    match v with
    | .null => some { s with type := none }
    | v => (TypeKeyword.decode? v).map fun t => { s with type := some t }
  | "enum" =>
    match v with
    | .null => some { s with enumValues := none }
    | .arr items => some { s with enumValues := some items }
    | _ => none
  | _ => some s

/-- A value together with what it is when a schema, a list of schemas or a map of schemas is
    due. Each value of a document is read once, from the inside out. -/
structure Reading where
  value : Json
  schema : Option Schema
  branches : Option (List Schema)
  properties : Option (List (String × Schema))

namespace Reading

/-- A keyword that may be `null`. -/
def orNull (r : Reading) (part : Option α) : Option (Option α) :=
  match r.value with
  | .null => some none
  | _ => part.map some

def additional (r : Reading) : Option (Option (Additional Schema)) :=
  match r.value with
  | .bool b => some (some (.allowed b))
  | _ => r.orNull (r.schema.map .schema)

end Reading

def setKeyword? (s : Schema) (key : String) (r : Reading) : Option Schema :=
  match key with
  | "items" => (r.orNull r.schema).map fun x => { s with items := x }
  | "properties" => (r.orNull r.properties).map fun x => { s with properties := x }
  | "additionalProperties" => r.additional.map fun x => { s with additional := x }
  | "allOf" => (r.orNull r.branches).map fun x => { s with allOf := x }
  | "oneOf" => (r.orNull r.branches).map fun x => { s with oneOf := x }
  | "anyOf" => (r.orNull r.branches).map fun x => { s with anyOf := x }
  | key => setPlain? s key r.value

def ofKeywords? (fields : List (String × Reading)) : Option Schema :=
  fields.foldlM (fun s (key, r) => setKeyword? s key r) blank

mutual

def read : Json → Reading
  | .obj fields =>
    let rs := readFields fields
    ⟨.obj fields, ofKeywords? rs, none, rs.mapM fun (key, r) => r.schema.map (key, ·)⟩
  | .arr items =>
    let rs := readItems items
    ⟨.arr items, if rs.length = keyOrder.length then ofKeywords? (keyOrder.zip rs) else none,
      rs.mapM (·.schema), none⟩
  | v => ⟨v, none, none, none⟩

def readItems : List Json → List Reading
  | [] => []
  | v :: rest => read v :: readItems rest

def readFields : List (String × Json) → List (String × Reading)
  | [] => []
  | (key, v) :: rest => (key, read v) :: readFields rest

end

def decode? (v : Json) : Option Schema := (read v).schema

end Schema

/-! ## The document -/

open Json (structFields? required? optional? defaulted? listOf? mapOf? choice?)

def RefOr.decode? (item? : Json → Option α) (v : Json) : Option (RefOr α) :=
  match (v.get? "$ref").bind Json.str? with
  | some target => some (.ref target)
  | none => (item? v).map .item

def Server.decode? (v : Json) : Option Server := do
  let fields ← structFields? ["url", "description"] 2 v
  return ⟨← required? Json.str? fields "url", ← optional? Json.str? fields "description"⟩

def Tag.decode? (v : Json) : Option Tag := do
  let fields ← structFields? ["name", "description"] 2 v
  return ⟨← required? Json.str? fields "name", ← optional? Json.str? fields "description"⟩

def Info.decode? (v : Json) : Option Info := do
  let fields ← structFields? ["title", "version", "description"] 3 v
  return ⟨← required? Json.str? fields "title", ← required? Json.str? fields "version",
    ← optional? Json.str? fields "description"⟩

def ParameterLocation.ofName? (name : String) : Option ParameterLocation :=
  [ParameterLocation.path, .query, .header, .cookie].find? (·.name = name)

def ParameterSpec.decode? (v : Json) : Option ParameterSpec := do
  let fields ← structFields? ["name", "in", "required", "description", "schema"] 5 v
  return {
    name := ← required? Json.str? fields "name"
    location := ← required? (choice? ParameterLocation.ofName?) fields "in"
    required := ← defaulted? Json.bool? false fields "required"
    description := ← optional? Json.str? fields "description"
    schema := ← optional? Schema.decode? fields "schema" }

def MediaType.decode? (v : Json) : Option MediaType := do
  let fields ← structFields? ["schema"] 1 v
  return ⟨← optional? Schema.decode? fields "schema"⟩

def RequestBody.decode? (v : Json) : Option RequestBody := do
  let fields ← structFields? ["description", "content", "required"] 1 v
  return {
    description := ← optional? Json.str? fields "description"
    content := ← defaulted? (mapOf? MediaType.decode?) [] fields "content"
    required := ← defaulted? Json.bool? false fields "required" }

def ResponseSpec.decode? (v : Json) : Option ResponseSpec := do
  let fields ← structFields? ["description", "content"] 1 v
  return {
    description := ← optional? Json.str? fields "description"
    content := ← defaulted? (mapOf? MediaType.decode?) [] fields "content" }

/-- The keys of an operation that are no extensions. -/
def Operation.keys : List String :=
  ["deprecated", "description", "operationId", "parameters", "requestBody", "responses", "summary", "tags"]

def parametersOf? (v : Json) : Option (List (RefOr ParameterSpec)) := listOf? (RefOr.decode? ParameterSpec.decode?) v

def Operation.decode? (v : Json) : Option Operation := do
  let fields ← v.fields?
  return {
    tags := ← defaulted? Json.strings? [] fields "tags"
    summary := ← optional? Json.str? fields "summary"
    description := ← optional? Json.str? fields "description"
    operationId := ← optional? Json.str? fields "operationId"
    parameters := ← defaulted? parametersOf? [] fields "parameters"
    requestBody := ← optional? (RefOr.decode? RequestBody.decode?) fields "requestBody"
    responses := ← defaulted? (mapOf? (RefOr.decode? ResponseSpec.decode?)) [] fields "responses"
    deprecated := ← defaulted? Json.bool? false fields "deprecated"
    extensions := fields.filter fun (key, _) => !Operation.keys.contains key }

def PathItem.keyOrder : List String :=
  ["$ref", "summary", "description", "get", "put", "post", "delete", "options", "head", "patch", "trace", "parameters"]

/-- The operations of a path item, in the order of their methods. -/
def operationsOf? (fields : KeyMap Json) : List HttpMethod → Option (List (HttpMethod × Operation))
  | [] => some []
  | method :: rest => do
    let operation ← optional? Operation.decode? fields method.lowerName
    let more ← operationsOf? fields rest
    return match operation with
      | some op => (method, op) :: more
      | none => more

def PathItem.decode? (v : Json) : Option PathItem := do
  let fields ← structFields? PathItem.keyOrder 11 v
  return {
    reference := ← optional? Json.str? fields "$ref"
    summary := ← optional? Json.str? fields "summary"
    description := ← optional? Json.str? fields "description"
    operations := ← operationsOf? fields HttpMethod.all
    parameters := ← defaulted? parametersOf? [] fields "parameters" }

def Components.decode? (v : Json) : Option Components := do
  let fields ← structFields? ["schemas", "responses", "parameters", "requestBodies"] 0 v
  return {
    schemas := ← defaulted? (mapOf? Schema.decode?) [] fields "schemas"
    responses := ← defaulted? (mapOf? ResponseSpec.decode?) [] fields "responses"
    parameters := ← defaulted? (mapOf? ParameterSpec.decode?) [] fields "parameters"
    requestBodies := ← defaulted? (mapOf? RequestBody.decode?) [] fields "requestBodies" }

def Components.blank : Components := ⟨[], [], [], []⟩

def Document.decode? (v : Json) : Option Document := do
  let fields ← structFields? ["openapi", "info", "servers", "tags", "paths", "components"] 2 v
  return {
    openapi := ← required? Json.str? fields "openapi"
    info := ← required? Info.decode? fields "info"
    servers := ← defaulted? (listOf? Server.decode?) [] fields "servers"
    tags := ← defaulted? (listOf? Tag.decode?) [] fields "tags"
    paths := ← defaulted? (mapOf? PathItem.decode?) [] fields "paths"
    components := ← defaulted? Components.decode? Components.blank fields "components" }

end ClientGen
