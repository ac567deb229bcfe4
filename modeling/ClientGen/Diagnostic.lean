import ClientGen.Model.TypeRef
import ClientGen.Text.Quoted

/-
  ClientGen.Diagnostic — what degraded while a model was built.

  A diagnostic never stops generation. Its subject is the declaration, operation or path that
  it is about.
-/

namespace ClientGen

inductive DiagnosticKind where
  /-- A path item given as a reference. -/
  | unresolvedPath
  | unresolvedParameter
  | unsupportedAnyOf
  /-- `allOf` with several branches inside a property of a merge. -/
  | nestedAllOf
  | enumValueMismatch
  | unknownSchemaShape
  /-- Two different schemas asked for one name. -/
  | nameCollision
  | unsupportedEnumKind
  /-- Header and cookie parameters. -/
  | unsupportedParameterLocation
  | missingPathParameter
  | ignoredAllOfBranch
  deriving DecidableEq, Repr

def DiagnosticKind.name : DiagnosticKind → String
  | .unresolvedPath => "unresolved_path"
  | .unresolvedParameter => "unresolved_parameter"
  | .unsupportedAnyOf => "unsupported_any_of"
  | .nestedAllOf => "nested_all_of"
  | .enumValueMismatch => "enum_value_mismatch"
  | .unknownSchemaShape => "unknown_schema_shape"
  | .nameCollision => "name_collision"
  | .unsupportedEnumKind => "unsupported_enum_kind"
  | .unsupportedParameterLocation => "unsupported_parameter_location"
  | .missingPathParameter => "missing_path_parameter"
  | .ignoredAllOfBranch => "ignored_all_of_branch"

structure Diagnostic where
  kind : DiagnosticKind
  subject : String
  message : String
  deriving DecidableEq, Repr

namespace Diagnostic

def unresolvedPath (path reference : String) : Diagnostic :=
  ⟨.unresolvedPath, path, "path item reference " ++ reference ++ " is not followed, skipping the path"⟩

def unresolvedParameter (operation reference : String) : Diagnostic :=
  ⟨.unresolvedParameter, operation, "parameter " ++ reference ++ " does not resolve, skipping it"⟩

def unsupportedAnyOf (subject : String) : Diagnostic :=
  ⟨.unsupportedAnyOf, subject, "anyOf is not supported, using an opaque type"⟩

def nestedAllOf (subject : String) : Diagnostic :=
  ⟨.nestedAllOf, subject, "allOf nested inside an allOf property is not supported, using an opaque type"⟩

def enumValueMismatch (subject value : String) (scalar : Scalar) : Diagnostic :=
  ⟨.enumValueMismatch, subject,
    "enum value " ++ value ++ " does not match type " ++ scalar.lowerLabel ++ ", skipping it"⟩

def unknownType (subject : String) (type : Option String) : Diagnostic :=
  ⟨.unknownSchemaShape, subject, "unknown schema type " ++ Text.quotedOption type ++ ", using an opaque type"⟩

def inlineComposite (subject : String) : Diagnostic :=
  ⟨.unknownSchemaShape, subject, "inline composite type is not supported here, using an opaque type"⟩

def nameCollision (name : String) : Diagnostic :=
  ⟨.nameCollision, name, "a different schema already declared this name, keeping the first one"⟩

def unsupportedEnum (name : String) (type : Option String) (target : TypeRef) : Diagnostic :=
  ⟨.unsupportedEnumKind, name,
    "enum of type " ++ Text.quotedOption type ++ " is not supported, declaring an alias of " ++ target.display⟩

def unsupportedLocation (operation location parameter : String) : Diagnostic :=
  ⟨.unsupportedParameterLocation, operation,
    location ++ " parameter " ++ parameter ++ " is not supported, skipping it"⟩

def missingPathParameter (operation placeholder : String) : Diagnostic :=
  ⟨.missingPathParameter, operation,
    "path placeholder \x7b" ++ placeholder ++ "\x7d has no parameter, typing it as string"⟩

def danglingBranch (name reference : String) : Diagnostic :=
  ⟨.ignoredAllOfBranch, name, "allOf branch " ++ reference ++ " does not resolve, ignoring it"⟩

def emptyBranch (name : String) (number : Nat) : Diagnostic :=
  ⟨.ignoredAllOfBranch, name, "allOf branch " ++ toString number ++ " has no properties, ignoring it"⟩

end Diagnostic

end ClientGen
