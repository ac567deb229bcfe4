import ClientGen.Template.Node

/-
  ClientGen.Template.Declarations — the template of a declaration, by its kind.

  The declaration is the variable `decl`. Documentation stands in line comments in front of it.
  A struct, an alias or a sum type that is an error gets an `Error` method behind it.
-/

namespace ClientGen.Template

/-- A key of the declaration. -/
def decl (key : String) : Node := .value ["decl", key]

def commentBody : Node := .cond (.holds ["line"]) [.text " ", .value ["line"]] []

/-- Comment lines, each ended by a line feed. -/
def docLines (path : Path) : Node := .each "line" path [.text "//", commentBody, .lines ["", ""]]

/-- Comment lines, each on a line below with some indentation. -/
def docLinesBelow (indent : String) (path : Path) : Node :=
  .each "line" path [.lines ["", indent ++ "//"], commentBody]

def structNodes : List Node := [
  docLines ["decl", "doc_lines"], .text "type ", decl "name", .text " struct \x7b",
  .each "field" ["decl", "fields"] [
    docLinesBelow "\t" ["field", "doc_lines"], .lines ["", "\t"], .value ["field", "name"], .text " ",
    .value ["field", "go_type"], .text " ", .value ["field", "tag"]],
  .lines ["", "\x7d"]]

def aliasNodes : List Node := [
  docLines ["decl", "doc_lines"], .text "type ", decl "name", .text " ", decl "target"]

def enumNodes : List Node := [
  docLines ["decl", "doc_lines"], .text "type ", decl "name", .text " ", decl "base", .lines ["", "", "const ("],
  .each "constant" ["decl", "constants"] [
    .lines ["", "\t"], .value ["constant", "name"], .text " ", decl "name", .text " = ",
    .value ["constant", "value"]],
  .lines ["", ")"]]

def sumNodes : List Node := [
  docLines ["decl", "doc_lines"], .lines ["//", "// At most one field is set at a time.", "type "], decl "name",
  .text " struct \x7b",
  .each "variant" ["decl", "variants"] [
    .lines ["", "\t"], .value ["variant", "name"], .text " ", .value ["variant", "go_type"], .text " ",
    .value ["variant", "tag"]],
  .lines ["", "\x7d", "", "// MarshalJSON encodes whichever variant is set.", "func (v "], decl "name",
  .lines [") MarshalJSON() ([]byte, error) \x7b", "\tswitch \x7b"],
  .each "variant" ["decl", "variants"] [
    .lines ["", "\tcase v."], .value ["variant", "name"], .lines [" != nil:", "\t\treturn json.Marshal(v."],
    .value ["variant", "name"], .text ")"],
  .lines ["", "\t\x7d", "\treturn []byte(\"null\"), nil", "\x7d"],
  .cond (.holds ["decl", "decode_unimplemented"]) [
    .lines ["", "", "// UnmarshalJSON always fails: choosing a variant from a payload is not supported.", "func (v *"],
    decl "name", .lines [") UnmarshalJSON([]byte) error \x7b", "\treturn errors.New(\""], .value ["package"],
    .text ": decoding ", decl "name", .lines [" is not supported\")", "\x7d"]] []]

def calendarNodes : List Node := [
  docLines ["decl", "doc_lines"], .text "type ", decl "name",
  .lines [" struct \x7b", "\ttime.Time", "\x7d", "", "// String formats the value as "], decl "layout",
  .lines [".", "func (d "], decl "name", .lines [") String() string \x7b", "\treturn d.Format(\""], decl "layout",
  .lines ["\")", "\x7d", "", "// MarshalJSON encodes the value as a JSON string.", "func (d "], decl "name",
  .lines [") MarshalJSON() ([]byte, error) \x7b", "\treturn json.Marshal(d.String())", "\x7d", "",
    "// UnmarshalJSON decodes a JSON string in "],
  decl "layout", .lines [" form.", "func (d *"], decl "name",
  .lines [") UnmarshalJSON(data []byte) error \x7b", "\tvar s string",
    "\tif err := json.Unmarshal(data, &s); err != nil \x7b", "\t\treturn err", "\t\x7d", "\tt, err := time.Parse(\""],
  decl "layout",
  .lines ["\", s)", "\tif err != nil \x7b", "\t\treturn err", "\t\x7d", "\td.Time = t", "\treturn nil", "\x7d"]]

def encoderNodes : List Node := [
  .lines ["// Values encodes the parameters as query string values.", "func (p *"], decl "type_name",
  .lines [") Values() url.Values \x7b", "\tq := url.Values\x7b\x7d", "\tif p == nil \x7b", "\t\treturn q", "\t\x7d"],
  .each "statement" ["decl", "statements"] [.lines ["", "\t"], .value ["statement"]],
  .lines ["", "\treturn q", "\x7d"]]

def errorNodes : List Node := [
  .cond (.holds ["decl", "error"]) [
    .lines ["", "", "func (e *"], decl "name", .text ") Error() string \x7b",
    .cond (.holds ["decl", "error", "message"])
      [.lines ["", "\treturn "], .value ["decl", "error", "message"]]
      [.lines ["", "\ttype plain "], decl "name", .lines ["", "\treturn fmt.Sprintf(\""], decl "name",
        .text ": %+v\", plain(*e))"],
    .lines ["", "\x7d"]] []]

def ofKind (kind : String) (yes no : List Node) : Node := .cond (.equals ["decl", "kind"] kind) yes no

def declarationNodes : List Node := [
  ofKind "struct" structNodes [
    ofKind "alias" aliasNodes [
      ofKind "enum" enumNodes [
        ofKind "sum" sumNodes [
          ofKind "calendar_helper" calendarNodes [
            ofKind "query_encoder" encoderNodes []]]]]],
  .cond
    (.either (.equals ["decl", "kind"] "struct")
      (.either (.equals ["decl", "kind"] "alias") (.equals ["decl", "kind"] "sum")))
    errorNodes [],
  .lines ["", ""]]

end ClientGen.Template
