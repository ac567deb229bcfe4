import ClientGen.Go.File
import ClientGen.Go.Literal
import ClientGen.Go.TypeName
import ClientGen.Model.Api

/-
  ClientGen.Go.Query — the statements of a query encoder.

  A required field is set unconditionally, an optional one when it is not nil, through its
  pointer if it has one. Repeated fields add a pair for each item. A value is turned into text by
  the format that was planned for it.
-/

namespace ClientGen.Go

/-- A call of a method on a value; a dereference needs parentheses. -/
def receiver (value : String) : String := if value.toList.head? = some '*' then "(" ++ value ++ ")" else value

def castScalarText (k : Scalar) (value : String) : String :=
  match k with
  | .string => "string(" ++ value ++ ")"
  | .integer => "strconv.Itoa(int(" ++ value ++ "))"
  | .int64 => "strconv.FormatInt(int64(" ++ value ++ "), 10)"
  | .float => "strconv.FormatFloat(float64(" ++ value ++ "), 'f', -1, 64)"
  | .boolean => "strconv.FormatBool(bool(" ++ value ++ "))"

/-- The Go expression for a value as query text. -/
def formatValue (format : ValueFormat) (element : TypeRef) (value : String) : String :=
  match format with
  | .text => if element = .scalar .string then value else "fmt.Sprint(" ++ value ++ ")"
  | .integer =>
    if element = .scalar .int64 then "strconv.FormatInt(" ++ value ++ ", 10)" else "strconv.Itoa(" ++ value ++ ")"
  | .float => "strconv.FormatFloat(" ++ value ++ ", 'f', -1, 64)"
  | .boolean => "strconv.FormatBool(" ++ value ++ ")"
  | .timestamp => receiver value ++ ".Format(time.RFC3339)"
  | .date => receiver value ++ ".String()"
  | .time => receiver value ++ ".String()"
  | .cast .timestamp => "time.Time(" ++ value ++ ").Format(time.RFC3339)"
  | .cast .date => "Date(" ++ value ++ ").String()"
  | .cast .time => "Time(" ++ value ++ ").String()"
  | .cast (.scalar k) => castScalarText k value

/-- What that expression needs. -/
def formatImports (format : ValueFormat) (element : TypeRef) : List String :=
  match format with
  | .text => if element = .scalar .string then [] else ["fmt"]
  | .integer => ["strconv"]
  | .float => ["strconv"]
  | .boolean => ["strconv"]
  | .timestamp => ["time"]
  | .cast .timestamp => ["time"]
  | .cast (.scalar .string) => []
  | .cast (.scalar _) => ["strconv"]
  | _ => []

def queryStatement (c : Conversion) (f : Field) : String :=
  let key := literal c.key
  let access := "p." ++ c.field
  let text (value : String) := formatValue c.format c.element value
  if c.repeated then
    if c.required || isNilable f.type then
      "for _, v := range " ++ access ++ " \x7b\n\t\tq.Add(" ++ key ++ ", " ++ text "v" ++ ")\n\t\x7d"
    else
      "if " ++ access ++ " != nil \x7b\n\t\tfor _, v := range *" ++ access ++ " \x7b\n\t\t\tq.Add(" ++ key ++ ", " ++
        text "v" ++ ")\n\t\t\x7d\n\t\x7d"
  else if c.required then "q.Set(" ++ key ++ ", " ++ text access ++ ")"
  else
    let target := if isNilable f.type then access else "*" ++ access
    "if " ++ access ++ " != nil \x7b\n\t\tq.Set(" ++ key ++ ", " ++ text target ++ ")\n\t\x7d"

/-- The fields of the params struct that an encoder belongs to. -/
def paramsFields (m : ApiModel) (typeName : String) : List Field :=
  match m.declaration? typeName with
  | some (.type d) => d.fields
  | _ => []

/-- The conversions together with their fields. -/
def encoded (m : ApiModel) (e : QueryEncoder) : List (Conversion × Field) :=
  let fields := paramsFields m e.typeName
  e.conversions.filterMap fun c => (fields.find? (·.name = c.field)).map (c, ·)

def queryEncoder (m : ApiModel) (e : QueryEncoder) : GoDeclaration :=
  .queryEncoder e.typeName ((encoded m e).map fun (c, f) => queryStatement c f)

def queryEncoderImports (m : ApiModel) (e : QueryEncoder) : List String :=
  "net/url" :: (encoded m e).flatMap fun (c, _) => formatImports c.format c.element

end ClientGen.Go
