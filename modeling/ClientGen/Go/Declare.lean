import ClientGen.Go.File
import ClientGen.Go.Literal
import ClientGen.Go.TypeName
import ClientGen.Model.Declaration
import ClientGen.Text.Comment
import ClientGen.Unicode.CaseMap
import ClientGen.Unicode.Cased

/-
  ClientGen.Go.Declare — declarations as Go.

  - Optional fields are pointers, unless nil is already a value of their type.
  - An error has an `Error` method; a field or variant called `Error` gives way to it. An error
    struct without fields reports its documentation.
  - The aliases `Date` and `Time` of the calendar types become wrappers with a layout.
-/

namespace ClientGen.Go

/-- Whether `needle` stands somewhere in a text. -/
def occurs (needle : List Char) : List Char → Bool
  | [] => needle.isEmpty
  | c :: rest => needle.isPrefixOf (c :: rest) || occurs needle rest

/-- A small first letter, if a small letter follows it. -/
def lowerFirst : List Char → List Char
  | a :: b :: rest => if Unicode.isLowercase b then Unicode.toLower a ++ b :: rest else a :: b :: rest
  | cs => cs

/-- Documentation that starts with the name it is about. -/
def namedDoc (name : String) (documentation : Option String) : List String :=
  match documentation.map Text.commentLines with
  | none => []
  | some [] => []
  | some (first :: rest) =>
    if name.toList.isPrefixOf first.toList then first :: rest
    else (name ++ " " ++ String.ofList (lowerFirst first.toList)) :: rest

def plainDoc (documentation : Option String) : List String := (documentation.map Text.commentLines).getD []

/-- The struct tag for a key. A raw literal is used when the key needs no escape. -/
def structTag (key : String) (optional : Bool) : String :=
  let value := if optional then key ++ ",omitempty" else key
  if value.toList.any fun c => c == '\x60' || c == '"' || c == '\\' then literal ("json:" ++ literal value)
  else "\x60json:\"" ++ value ++ "\"\x60"

def fieldName (name : String) (isError : Bool) : String := if isError && name == "Error" then "Error_" else name

/-- The error method of a declaration. -/
def errorMethod (isError payloadless : Bool) (message : String) : Option ErrorMethod :=
  if isError then some ⟨if payloadless then some (literal message) else none⟩ else none

def structField (isError : Bool) (f : Field) : GoField :=
  ⟨fieldName f.name isError, fieldTypeName f.type f.optional, structTag f.key f.optional, plainDoc f.documentation⟩

/-- What a type declaration is in Go. -/
inductive TypeForm where
  | calendar (layout : String)
  | struct (fields : List Field)
  | defined (target : String)

def typeForm (d : TypeDecl) : TypeForm :=
  match d.repr with
  | .aliasOf .date => if d.name = "Date" then .calendar "2006-01-02" else .defined (typeName .date)
  | .aliasOf .time => if d.name = "Time" then .calendar "15:04:05" else .defined (typeName .time)
  | .aliasOf target => .defined (typeName target)
  | .struct fields => .struct fields
  | .map value => .defined ("map[string]" ++ typeName value)
  | .rawBytes => .defined "[]byte"

def typeDeclaration (d : TypeDecl) : GoDeclaration :=
  let doc := namedDoc d.name d.documentation
  match typeForm d with
  | .calendar layout => .calendar d.name doc layout
  | .struct fields =>
    .struct d.name doc (fields.map (structField d.isError))
      (errorMethod d.isError fields.isEmpty (d.documentation.getD d.name))
  | .defined target => .aliasOf d.name doc target (errorMethod d.isError false d.name)

def literalText : Literal → String
  | .text s => literal s
  | .integer n => toString n
  | .float x => x.toPlain

def enumDeclaration (d : EnumDecl) : GoDeclaration :=
  .enumeration d.name (namedDoc d.name d.documentation) (scalarName d.scalar)
    (d.variants.map fun v => ⟨v.name, literalText v.value⟩)

def sumVariant (isError : Bool) (v : SumVariant) : GoField :=
  ⟨fieldName v.label isError, fieldTypeName v.type true, "\x60json:\"-\"\x60", []⟩

def sumDeclaration (d : SumDecl) : GoDeclaration :=
  .sum d.name (namedDoc d.name d.documentation) (d.variants.map (sumVariant d.isError)) d.decodeUnimplemented
    (errorMethod d.isError false d.name)

/-! ## Imports -/

/-- What a type written out in Go needs. -/
def typeImports (goType : String) : List String := if occurs "time.Time".toList goType.toList then ["time"] else []

def errorImports (isError payloadless : Bool) : List String := if isError && !payloadless then ["fmt"] else []

def typeDeclImports (d : TypeDecl) : List String :=
  match typeForm d with
  | .calendar _ => ["encoding/json", "time"]
  | .struct fields =>
    fields.flatMap (fun f => typeImports (fieldTypeName f.type f.optional)) ++ errorImports d.isError fields.isEmpty
  | .defined target => typeImports target ++ errorImports d.isError false

def sumImports (d : SumDecl) : List String :=
  "encoding/json" :: (if d.decodeUnimplemented then ["errors"] else []) ++
    d.variants.flatMap (fun v => typeImports (fieldTypeName v.type true)) ++ errorImports d.isError false

end ClientGen.Go
