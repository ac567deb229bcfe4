import ClientGen.Document.Basic

/-
  ClientGen.Document.Encode — a document as a JSON value.

  Every key is written: an option that is absent as `null`, a collection with nothing in it as
  an empty one. Extensions of an operation stand beside its own keys.
-/

namespace ClientGen

open Json (ofText ofFlag ofTexts ofMap ofOption)

def TypeKeyword.encode : TypeKeyword → Json
  | .single t => .str t
  | .several ts => ofTexts ts

namespace Schema

mutual

def encode : Schema → Json
  | ⟨reference, type, format, title, description, items, properties, required, enumValues, additional, allOf, oneOf,
      anyOf, nullable, deprecated⟩ =>
    .obj [
      ("$ref", ofText reference),
      ("additionalProperties", encodeAdditional additional),
      ("allOf", encodeBranches allOf),
      ("anyOf", encodeBranches anyOf),
      ("deprecated", ofFlag deprecated),
      ("description", ofText description),
      ("enum", ofOption .arr enumValues),
      ("format", ofText format),
      ("items", encodeOption items),
      ("nullable", ofFlag nullable),
      ("oneOf", encodeBranches oneOf),
      ("properties", encodeProperties properties),
      ("required", ofTexts required),
      ("title", ofText title),
      ("type", ofOption TypeKeyword.encode type)]

def encodeOption : Option Schema → Json
  | none => .null
  | some s => encode s

def encodeAdditional : Option (Additional Schema) → Json
  | none => .null
  | some (.allowed yes) => .bool yes
  | some (.schema s) => encode s

def encodeBranches : Option (List Schema) → Json
  | none => .null
  | some ss => .arr (encodeList ss)

def encodeList : List Schema → List Json
  | [] => []
  | s :: rest => encode s :: encodeList rest

def encodeProperties : Option (List (String × Schema)) → Json
  | none => .null
  | some fields => .obj (encodeFields fields)

def encodeFields : List (String × Schema) → List (String × Json)
  | [] => []
  | (k, s) :: rest => (k, encode s) :: encodeFields rest

end

end Schema

def RefOr.encode (f : α → Json) : RefOr α → Json
  | .ref target => .obj [("$ref", .str target)]
  | .item a => f a

def Server.encode (s : Server) : Json := .obj [("description", ofText s.description), ("url", .str s.url)]

def Tag.encode (t : Tag) : Json := .obj [("description", ofText t.description), ("name", .str t.name)]

def Info.encode (i : Info) : Json :=
  .obj [("description", ofText i.description), ("title", .str i.title), ("version", .str i.version)]

def ParameterSpec.encode (p : ParameterSpec) : Json :=
  .obj [("description", ofText p.description), ("in", .str p.location.name), ("name", .str p.name),
    ("required", .bool p.required), ("schema", ofOption Schema.encode p.schema)]

def MediaType.encode (m : MediaType) : Json := .obj [("schema", ofOption Schema.encode m.schema)]

def RequestBody.encode (b : RequestBody) : Json :=
  .obj [("content", ofMap MediaType.encode b.content), ("description", ofText b.description),
    ("required", .bool b.required)]

def ResponseSpec.encode (r : ResponseSpec) : Json :=
  .obj [("content", ofMap MediaType.encode r.content), ("description", ofText r.description)]

def Operation.encode (op : Operation) : Json :=
  Json.object ([
    ("deprecated", .bool op.deprecated),
    ("description", ofText op.description),
    ("operationId", ofText op.operationId),
    ("parameters", .arr (op.parameters.map (RefOr.encode ParameterSpec.encode))),
    ("requestBody", ofOption (RefOr.encode RequestBody.encode) op.requestBody),
    ("responses", ofMap (RefOr.encode ResponseSpec.encode) op.responses),
    ("summary", ofText op.summary),
    ("tags", ofTexts op.tags)] ++ op.extensions)

def PathItem.encode (item : PathItem) : Json :=
  let operation (m : HttpMethod) : String × Json :=
    (m.lowerName, ofOption Operation.encode (item.operations.lookup m))
  .obj [("$ref", ofText item.reference), operation .delete, ("description", ofText item.description),
    operation .get, operation .head, operation .options,
    ("parameters", .arr (item.parameters.map (RefOr.encode ParameterSpec.encode))),
    operation .patch, operation .post, operation .put, ("summary", ofText item.summary), operation .trace]

def Components.encode (c : Components) : Json :=
  .obj [("parameters", ofMap ParameterSpec.encode c.parameters),
    ("requestBodies", ofMap RequestBody.encode c.requestBodies),
    ("responses", ofMap ResponseSpec.encode c.responses), ("schemas", ofMap Schema.encode c.schemas)]

def Document.encode (d : Document) : Json :=
  .obj [("components", d.components.encode), ("info", d.info.encode), ("openapi", .str d.openapi),
    ("paths", ofMap PathItem.encode d.paths), ("servers", .arr (d.servers.map Server.encode)),
    ("tags", .arr (d.tags.map Tag.encode))]

end ClientGen
