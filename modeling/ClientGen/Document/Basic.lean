import ClientGen.Document.Schema

/-
  ClientGen.Document.Basic — the API document: servers, tags, paths and components.

  Only what generation needs is kept. Every map is ordered by its keys, and the operations of a
  path by their method, so nothing depends on the order in which a document was written.
-/

namespace ClientGen

/-- A reference to a component, or the item itself. -/
inductive RefOr (α : Type) where
  | ref (target : String)
  | item (value : α)
  deriving Repr

structure Server where
  url : String
  description : Option String
  deriving Repr

structure Tag where
  name : String
  description : Option String
  deriving Repr

structure Info where
  title : String
  version : String
  description : Option String
  deriving Repr

inductive ParameterLocation where
  | path
  | query
  | header
  | cookie
  deriving DecidableEq, Repr

structure ParameterSpec where
  name : String
  location : ParameterLocation
  required : Bool
  description : Option String
  schema : Option Schema
  deriving Repr

structure MediaType where
  schema : Option Schema
  deriving Repr

structure RequestBody where
  description : Option String
  content : KeyMap MediaType
  required : Bool
  deriving Repr

structure ResponseSpec where
  description : Option String
  content : KeyMap MediaType
  deriving Repr

structure Operation where
  tags : List String
  summary : Option String
  description : Option String
  operationId : Option String
  parameters : List (RefOr ParameterSpec)
  requestBody : Option (RefOr RequestBody)
  responses : KeyMap (RefOr ResponseSpec)
  deprecated : Bool
  /-- Every key that is none of the above. -/
  extensions : KeyMap Json
  deriving Repr

inductive HttpMethod where
  | delete
  | get
  | head
  | options
  | patch
  | post
  | put
  | trace
  deriving DecidableEq, Repr

structure PathItem where
  reference : Option String
  summary : Option String
  description : Option String
  /-- Ordered by method. -/
  operations : List (HttpMethod × Operation)
  parameters : List (RefOr ParameterSpec)
  deriving Repr

structure Components where
  schemas : KeyMap Schema
  responses : KeyMap ResponseSpec
  parameters : KeyMap ParameterSpec
  requestBodies : KeyMap RequestBody
  deriving Repr

structure Document where
  openapi : String
  info : Info
  servers : List Server
  tags : List Tag
  paths : KeyMap PathItem
  components : Components
  deriving Repr

/-! ## Names -/

def ParameterLocation.name : ParameterLocation → String
  | .path => "path"
  | .query => "query"
  | .header => "header"
  | .cookie => "cookie"

namespace HttpMethod

/-- In the order in which the operations of a path are taken. -/
def all : List HttpMethod := [.delete, .get, .head, .options, .patch, .post, .put, .trace]

def upperName : HttpMethod → String
  | .delete => "DELETE"
  | .get => "GET"
  | .head => "HEAD"
  | .options => "OPTIONS"
  | .patch => "PATCH"
  | .post => "POST"
  | .put => "PUT"
  | .trace => "TRACE"

def lowerName : HttpMethod → String
  | .delete => "delete"
  | .get => "get"
  | .head => "head"
  | .options => "options"
  | .patch => "patch"
  | .post => "post"
  | .put => "put"
  | .trace => "trace"

def ofUpperName? (name : String) : Option HttpMethod := all.find? (·.upperName = name)

end HttpMethod

/-! ## Looking things up -/

/-- The payload that generation looks at. -/
def jsonMediaType : String := "application/json"

def jsonSchemaOf? (content : KeyMap MediaType) : Option Schema :=
  (KeyMap.get? content jsonMediaType).bind (·.schema)

def ResponseSpec.jsonSchema? (r : ResponseSpec) : Option Schema := jsonSchemaOf? r.content

/-- A vendor extension by its name, which starts with `x-`. -/
def Operation.extension? (op : Operation) (name : String) : Option Json :=
  if "x-".toList.isPrefixOf name.toList then KeyMap.get? op.extensions name else none

def schemaRefStart : String := "#/components/schemas/"

def responseRefStart : String := "#/components/responses/"

def parameterRefStart : String := "#/components/parameters/"

def requestBodyRefStart : String := "#/components/requestBodies/"

/-- What follows `start` in a text that begins with it. -/
def textAfter? (start text : String) : Option String :=
  if start.toList.isPrefixOf text.toList then some (String.ofList (text.toList.drop start.length)) else none

theorem textAfter?_eq_some_iff {start text rest : String} : textAfter? start text = some rest ↔ text = start ++ rest := by
  unfold textAfter?
  constructor
  · intro h
    split at h
    · rename_i hp
      obtain ⟨tail, htail⟩ := List.isPrefixOf_iff_prefix.mp hp
      cases h
      rw [← htail, ← String.length_toList, List.drop_left]
      apply String.toList_injective
      rw [String.toList_append, String.toList_ofList, htail]
    · cases h
  · rintro rfl
    have hp : start.toList.isPrefixOf (start ++ rest).toList = true := by
      rw [String.toList_append]
      exact List.isPrefixOf_iff_prefix.mpr (List.prefix_append _ _)
    rw [if_pos hp, String.toList_append, ← String.length_toList, List.drop_left, String.ofList_toList]

theorem bind_textAfter?_eq_some_iff {α : Type} {start text : String} {f : String → Option α} {a : α} :
    (textAfter? start text).bind f = some a ↔ ∃ rest, text = start ++ rest ∧ f rest = some a := by
  simp only [Option.bind_eq_some_iff, textAfter?_eq_some_iff]

namespace Document

def schemaRefName? (reference : String) : Option String := textAfter? schemaRefStart reference

def schemaByRef? (d : Document) (reference : String) : Option Schema :=
  (schemaRefName? reference).bind (KeyMap.get? d.components.schemas)

def responseByRef? (d : Document) (reference : String) : Option ResponseSpec :=
  (textAfter? responseRefStart reference).bind (KeyMap.get? d.components.responses)

def parameterByRef? (d : Document) (reference : String) : Option ParameterSpec :=
  (textAfter? parameterRefStart reference).bind (KeyMap.get? d.components.parameters)

def requestBodyByRef? (d : Document) (reference : String) : Option RequestBody :=
  (textAfter? requestBodyRefStart reference).bind (KeyMap.get? d.components.requestBodies)

/-! A reference leads to the component whose key stands behind the start of its kind. -/

section

variable {d : Document} {reference : String}

theorem schemaByRef?_eq_some_iff {s : Schema} :
    d.schemaByRef? reference = some s ↔
      ∃ key, reference = schemaRefStart ++ key ∧ KeyMap.get? d.components.schemas key = some s :=
  bind_textAfter?_eq_some_iff

theorem responseByRef?_eq_some_iff {r : ResponseSpec} :
    d.responseByRef? reference = some r ↔
      ∃ key, reference = responseRefStart ++ key ∧ KeyMap.get? d.components.responses key = some r :=
  bind_textAfter?_eq_some_iff

theorem parameterByRef?_eq_some_iff {p : ParameterSpec} :
    d.parameterByRef? reference = some p ↔
      ∃ key, reference = parameterRefStart ++ key ∧ KeyMap.get? d.components.parameters key = some p :=
  bind_textAfter?_eq_some_iff

theorem requestBodyByRef?_eq_some_iff {b : RequestBody} :
    d.requestBodyByRef? reference = some b ↔
      ∃ key, reference = requestBodyRefStart ++ key ∧ KeyMap.get? d.components.requestBodies key = some b :=
  bind_textAfter?_eq_some_iff

end

def parameter? (d : Document) : RefOr ParameterSpec → Option ParameterSpec
  | .item p => some p
  | .ref target => d.parameterByRef? target

def response? (d : Document) : RefOr ResponseSpec → Option ResponseSpec
  | .item r => some r
  | .ref target => d.responseByRef? target

def requestBody? (d : Document) : RefOr RequestBody → Option RequestBody
  | .item b => some b
  | .ref target => d.requestBodyByRef? target

end Document

end ClientGen
