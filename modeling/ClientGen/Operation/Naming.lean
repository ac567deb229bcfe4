import ClientGen.Document.Basic
import ClientGen.Name.Words
import ClientGen.Unicode.Blank

/-
  ClientGen.Operation.Naming — the names that an operation gives to what is generated for it.
-/

namespace ClientGen

/-- The id of an operation that declares none, made of its method and path. -/
def synthesizedId (method : HttpMethod) (path : String) : String := Name.snake (method.lowerName ++ " " ++ path)

def responseComponentName (key : String) : String := Name.proper key ++ "Response"

/-- The type of an inline response: its title names it, or else its key. -/
def inlineResponseName (operationName key : String) (s : Schema) : String :=
  let title := (s.title.map Name.proper).getD ""
  if title ≠ "" then operationName ++ title ++ "Response"
  else if key = "default" then operationName ++ "DefaultResponse"
  else operationName ++ key.map Char.toUpper ++ "Response"

namespace Operation

/-- The method name that the `x-codegen` extension asks for. -/
def methodNameOverride? (op : Operation) : Option String :=
  ((((op.extension? "x-codegen").bind (·.get? "method_name")).bind Json.str?).map Name.proper).filter (· ≠ "")

def idOr (op : Operation) (method : HttpMethod) (path : String) : String :=
  op.operationId.getD (synthesizedId method path)

/-- Summary and description as two paragraphs. -/
def documentation (op : Operation) : Option String :=
  match (Unicode.trimmed? op.summary).toList ++ (Unicode.trimmed? op.description).toList with
  | [] => none
  | parts => some ("\n\n".intercalate parts)

def tag (op : Operation) : String := op.tags.head?.getD "default"

end Operation

end ClientGen
