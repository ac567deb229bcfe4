import ClientGen.Json.Value

/-
  ClientGen.Go.File — what a generated Go file holds.

  Everything is spelled out as Go text; a template only lays the pieces out. `toJson` gives the
  form that templates look things up in.
-/

namespace ClientGen.Go

structure GoField where
  name : String
  type : String
  tag : String
  doc : List String
  deriving DecidableEq, Repr

structure Constant where
  name : String
  value : String
  deriving DecidableEq, Repr

/-- How the `Error` method reports a value: a fixed message, or the value itself. -/
structure ErrorMethod where
  message : Option String
  deriving DecidableEq, Repr

inductive GoDeclaration where
  | struct (name : String) (doc : List String) (fields : List GoField) (error : Option ErrorMethod)
  /-- A type defined over another one. -/
  | aliasOf (name : String) (doc : List String) (target : String) (error : Option ErrorMethod)
  | enumeration (name : String) (doc : List String) (base : String) (constants : List Constant)
  | sum (name : String) (doc : List String) (variants : List GoField) (decodeUnimplemented : Bool)
      (error : Option ErrorMethod)
  /-- A calendar type around a time with a fixed layout. -/
  | calendar (name : String) (doc : List String) (layout : String)
  | queryEncoder (typeName : String) (statements : List String)
  deriving DecidableEq, Repr

structure Case where
  label : String
  lines : List String
  deriving DecidableEq, Repr

structure GoMethod where
  name : String
  doc : List String
  /-- The arguments after the context, each with a comma in front. -/
  arguments : String
  result : String
  /-- What every return statement puts in front of the error. -/
  zero : String
  httpMethod : String
  path : String
  query : String
  body : String
  cases : List Case
  deriving DecidableEq, Repr

structure Service where
  name : String
  typeName : String
  doc : List String
  methods : List GoMethod
  deriving DecidableEq, Repr

structure File where
  name : String
  /-- Ordered, each once. -/
  imports : List String
  declarations : List GoDeclaration
  service : Option Service
  deriving DecidableEq, Repr

/-! ## As values for templates -/

open Json (object ofTexts ofOption)

def GoField.toJson (f : GoField) : Json :=
  object [("name", .str f.name), ("go_type", .str f.type), ("tag", .str f.tag), ("doc_lines", ofTexts f.doc)]

def Constant.toJson (c : Constant) : Json := object [("name", .str c.name), ("value", .str c.value)]

def ErrorMethod.toJson (e : ErrorMethod) : Json := object [("message", ofOption .str e.message)]

def GoDeclaration.toJson : GoDeclaration → Json
  | .struct name doc fs error =>
    object [("kind", .str "struct"), ("name", .str name), ("doc_lines", ofTexts doc),
      ("fields", .arr (fs.map GoField.toJson)), ("error", ofOption ErrorMethod.toJson error)]
  | .aliasOf name doc target error =>
    object [("kind", .str "alias"), ("name", .str name), ("doc_lines", ofTexts doc), ("target", .str target),
      ("error", ofOption ErrorMethod.toJson error)]
  | .enumeration name doc base constants =>
    object [("kind", .str "enum"), ("name", .str name), ("doc_lines", ofTexts doc), ("base", .str base),
      ("constants", .arr (constants.map Constant.toJson))]
  | .sum name doc variants decodeUnimplemented error =>
    object [("kind", .str "sum"), ("name", .str name), ("doc_lines", ofTexts doc),
      ("variants", .arr (variants.map GoField.toJson)), ("decode_unimplemented", .bool decodeUnimplemented),
      ("error", ofOption ErrorMethod.toJson error)]
  | .calendar name doc layout =>
    object [("kind", .str "calendar_helper"), ("name", .str name), ("doc_lines", ofTexts doc),
      ("layout", .str layout)]
  | .queryEncoder typeName statements =>
    object [("kind", .str "query_encoder"), ("type_name", .str typeName), ("statements", ofTexts statements)]

def Case.toJson (c : Case) : Json := object [("label", .str c.label), ("lines", ofTexts c.lines)]

def GoMethod.toJson (m : GoMethod) : Json :=
  object [("name", .str m.name), ("doc_lines", ofTexts m.doc), ("arguments", .str m.arguments),
    ("result", .str m.result), ("zero", .str m.zero), ("http_method", .str m.httpMethod), ("path_expr", .str m.path),
    ("query_arg", .str m.query), ("body_arg", .str m.body), ("cases", .arr (m.cases.map Case.toJson))]

def Service.toJson (s : Service) : Json :=
  object [("name", .str s.name), ("type_name", .str s.typeName), ("doc_lines", ofTexts s.doc),
    ("methods", .arr (s.methods.map GoMethod.toJson))]

def File.toJson (f : File) : Json :=
  object [("file_name", .str f.name), ("imports", ofTexts f.imports),
    ("declarations", .arr (f.declarations.map GoDeclaration.toJson)), ("service", ofOption Service.toJson f.service)]

end ClientGen.Go
