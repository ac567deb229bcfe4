import ClientGen.Template.Client
import ClientGen.Template.Declarations

/-
  ClientGen.Template.Package — the files of a package, rendered from the values of its templates.

  `client.go` comes first, then `types.go` with the shared declarations, then a file for every
  grouping, under the name that the grouping gives. The first file that cannot be rendered
  ends the whole.
-/

namespace ClientGen.Template

/-- The import block, when there is anything to import. -/
def importNodes : Node :=
  .cond (.holds ["file", "imports"])
    [.lines ["", "import ("], .each "path" ["file", "imports"] [.lines ["", "\t\""], .value ["path"], .text "\""],
      .lines ["", ")", ""]] []

def headNodes : List Node := [
  .lines ["// Code generated by sdkgen. DO NOT EDIT.", "", "package "], .value ["package"], .lines ["", ""],
  importNodes]

def declarationsNode : Node := .each "decl" ["file", "declarations"] (.lines ["", "", ""] :: declarationNodes)

def typesNodes : List Node := headNodes ++ [declarationsNode, .lines ["", ""]]

def methodNodes : List Node := [
  .lines ["", "", ""], docLines ["method", "doc_lines"], .text "func (s *", .value ["file", "service", "type_name"],
  .text ") ", .value ["method", "name"], .text "(ctx context.Context", .value ["method", "arguments"], .text ") ",
  .value ["method", "result"], .lines [" \x7b", "\tresp, err := s.client.do(ctx, "], .value ["method", "http_method"],
  .text ", ", .value ["method", "path_expr"], .text ", ", .value ["method", "query_arg"], .text ", ",
  .value ["method", "body_arg"], .lines [")", "\tif err != nil \x7b", "\t\treturn "], .value ["method", "zero"],
  .lines ["err", "\t\x7d", "\tswitch \x7b"],
  .each "case" ["method", "cases"] [
    .lines ["", "\t"], .value ["case", "label"],
    .each "line" ["case", "lines"] [.lines ["", "\t\t"], .value ["line"]]],
  .lines ["", "\t\x7d", "\x7d"]]

def groupingNodes : List Node := headNodes ++ [
  docLinesBelow "" ["file", "service", "doc_lines"], .lines ["", "type "], .value ["file", "service", "type_name"],
  .lines [" struct \x7b", "\tclient *Client", "\x7d"], declarationsNode,
  .each "method" ["file", "service", "methods"] methodNodes,
  .lines ["", ""]]

structure Artifact where
  /-- Relative to the output directory. -/
  path : String
  content : String
  deriving DecidableEq, Repr

inductive RenderError where
  /-- The values are no object. -/
  | noContext
  | noGroupings
  | unnamedGrouping
  | failed (file : String) (cause : Failure)
  deriving DecidableEq, Repr

def RenderError.message : RenderError → String
  | .noContext => "Render error: Invalid render context: the values are not an object"
  | .noGroupings => "Render error: Render context has no groupings"
  | .unnamedGrouping => "Render error: Grouping file has no name"
  | .failed file cause => "Render error: Failed to render " ++ file ++ ": " ++ cause.message

def renderFile (path : String) (nodes : List Node) (values : KeyMap Json) : Except RenderError Artifact :=
  match renderAll values nodes with
  | .ok content => .ok ⟨path, content⟩
  | .error cause => .error (.failed path cause)

def renderGroupings (values : KeyMap Json) : List Json → Except RenderError (List Artifact)
  | [] => .ok []
  | file :: rest =>
    match (file.get? "file_name").bind Json.str? with
    | none => .error .unnamedGrouping
    | some path => do
      return (← renderFile path groupingNodes (KeyMap.insert "file" file values)) :: (← renderGroupings values rest)

def renderPackage (context : Json) : Except RenderError (List Artifact) :=
  match context.fields? with
  | none => .error .noContext
  | some values => do
    let client ← renderFile "client.go" clientNodes values
    let shared := match KeyMap.get? values "shared" with
      | some file => KeyMap.insert "file" file values
      | none => values
    let types ← renderFile "types.go" typesNodes shared
    match (KeyMap.get? values "groupings").bind Json.items? with
    | none => .error .noGroupings
    | some files => return client :: types :: (← renderGroupings values files)

end ClientGen.Template
