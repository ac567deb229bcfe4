import ClientGen.Name.Words

/-
  ClientGen.Go.Identifier — names of arguments in generated Go.

  An argument is the camel form of its name. It must not clash with a keyword or with what the
  generated method bodies use, and starts with a letter or an underscore.
-/

namespace ClientGen.Go

def keywords : List String :=
  ["break", "case", "chan", "const", "continue", "default", "defer", "else", "fallthrough",
    "for", "func", "go", "goto", "if", "import", "interface", "map", "package", "range",
    "return", "select", "struct", "switch", "type", "var"]

/-- Identifiers that generated method bodies rely on. -/
def usedInBodies : List String :=
  ["nil", "true", "false", "ctx", "resp", "err", "s", "e", "out", "body", "params", "context", "http", "url",
    "time", "json", "fmt", "pathParam", "decodeJSON"]

def reserved : List String := keywords ++ usedInBodies

def startsIdentifier (s : String) : Bool :=
  match s.toList with
  | [] => false
  | c :: _ => Unicode.isAlphabetic c || c == '_'

def argumentName (name : String) : String :=
  let camel := Name.camel name
  let started := if startsIdentifier camel then camel else "p" ++ camel
  if reserved.contains started then started ++ "_" else started

end ClientGen.Go
