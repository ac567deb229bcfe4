import ClientGen.Json.Value
import ClientGen.Unicode.Blank

/-
  ClientGen.Document.Schema — schemas and the shape that decides how each is treated.

  A schema is a bag of keywords; `shape` picks the one that counts. In order of precedence:
  a reference, a nonempty `enum`, `oneOf`, `anyOf`, `allOf`, then `type`. Without a type a schema
  with properties or additional properties is an object, and one with items an array.
-/

namespace ClientGen

/-- The `type` keyword: one type, or several of which `null` makes the schema nullable. -/
inductive TypeKeyword where
  | single (type : String)
  | several (types : List String)
  deriving DecidableEq, Repr

inductive Additional (σ : Type) where
  | allowed (yes : Bool)
  | schema (s : σ)
  deriving Repr

structure Schema where
  reference : Option String
  type : Option TypeKeyword
  format : Option String
  title : Option String
  description : Option String
  items : Option Schema
  properties : Option (List (String × Schema))
  required : List String
  enumValues : Option (List Json)
  additional : Option (Additional Schema)
  allOf : Option (List Schema)
  oneOf : Option (List Schema)
  anyOf : Option (List Schema)
  nullable : Option Bool
  deprecated : Option Bool
  deriving Repr

inductive Primitive where
  | string
  | integer
  | number
  | boolean
  deriving DecidableEq, Repr

def Primitive.name : Primitive → String
  | .string => "string"
  | .integer => "integer"
  | .number => "number"
  | .boolean => "boolean"

def Primitive.ofName? (name : String) : Option Primitive :=
  if name = "string" then some .string
  else if name = "integer" then some .integer
  else if name = "number" then some .number
  else if name = "boolean" then some .boolean
  else none

/-- What a schema is, by its first keyword that counts. -/
inductive Shape where
  | reference (target : String)
  | enumeration (values : List Json)
  | primitive (p : Primitive)
  | array (items : Option Schema)
  | object
  | oneOf (branches : List Schema)
  | anyOf (branches : List Schema)
  | allOf (branches : List Schema)
  | unknown

namespace Schema

/-- The schema without keywords. -/
def blank : Schema :=
  { reference := none, type := none, format := none, title := none, description := none, items := none,
    properties := none, required := [], enumValues := none, additional := none, allOf := none, oneOf := none,
    anyOf := none, nullable := none, deprecated := none }

/-- The first type that is not `null`. -/
def primaryType (s : Schema) : Option String :=
  match s.type with
  | none => none
  | some (.single t) => some t
  | some (.several ts) => ts.find? (· ≠ "null")

def isNullable (s : Schema) : Bool :=
  s.nullable == some true ||
    match s.type with
    | some (.several ts) => ts.contains "null"
    | _ => false

def allowsAdditional (s : Schema) : Bool :=
  match s.additional with
  | some (.allowed yes) => yes
  | some (.schema _) => true
  | none => false

def additionalSchema (s : Schema) : Option Schema :=
  match s.additional with
  | some (.schema a) => some a
  | _ => none

def propertyList (s : Schema) : KeyMap Schema := s.properties.getD []

def hasProperties (s : Schema) : Bool := !s.propertyList.isEmpty

def enumList (s : Schema) : List Json := s.enumValues.getD []

def isEnum (s : Schema) : Bool := !s.enumList.isEmpty

def shapeOfType (s : Schema) : Shape :=
  match s.primaryType with
  | some t =>
    match Primitive.ofName? t with
    | some p => .primitive p
    | none => if t = "array" then .array s.items else if t = "object" then .object else .unknown
  | none =>
    if s.properties.isSome || s.additional.isSome then .object
    else if s.items.isSome then .array s.items
    else .unknown

def shape (s : Schema) : Shape :=
  match s.reference with
  | some target => .reference target
  | none =>
    if s.isEnum then .enumeration s.enumList
    else match s.oneOf with
      | some branches => .oneOf branches
      | none => match s.anyOf with
        | some branches => .anyOf branches
        | none => match s.allOf with
          | some branches => .allOf branches
          | none => s.shapeOfType

def documentation (s : Schema) : Option String := Unicode.trimmed? s.description

/-! ## Sizes

  What a schema holds is smaller than the schema, so recursion into it ends. -/

theorem sizeOf_lt_of_items {s i : Schema} (h : s.items = some i) : sizeOf i < sizeOf s := by
  cases s; simp only at h; subst h; simp only [mk.sizeOf_spec, Option.some.sizeOf_spec]; omega

theorem sizeOf_lt_of_additionalSchema {s a : Schema} (h : s.additionalSchema = some a) : sizeOf a < sizeOf s := by
  obtain ⟨_, _, _, _, _, _, _, _, _, additional, _, _, _, _, _⟩ := s
  match additional, h with
  | some (.schema _), rfl =>
    simp only [mk.sizeOf_spec, Option.some.sizeOf_spec, Additional.schema.sizeOf_spec]; omega

theorem sizeOf_lt_of_allOf {s b : Schema} {bs : List Schema} (h : s.allOf = some bs) (hb : b ∈ bs) :
    sizeOf b < sizeOf s := by
  have := List.sizeOf_lt_of_mem hb
  cases s; simp only at h; subst h; simp only [mk.sizeOf_spec, Option.some.sizeOf_spec]; omega

/-- The precedence of `shape`, read backwards. -/
theorem eq_of_shape {s : Schema} :
    (∀ t, s.shape = .reference t → s.reference = some t) ∧
    (∀ i, s.shape = .array i → s.items = i) ∧
    (∀ bs, s.shape = .oneOf bs → s.oneOf = some bs) ∧
    (∀ bs, s.shape = .anyOf bs → s.anyOf = some bs) ∧
    (∀ bs, s.shape = .allOf bs → s.allOf = some bs) := by
  unfold shape shapeOfType
  repeat' split
  all_goals simp_all

theorem items_of_shape {s : Schema} {i : Option Schema} (h : s.shape = .array i) : s.items = i := eq_of_shape.2.1 i h

theorem allOf_of_shape {s : Schema} {bs : List Schema} (h : s.shape = .allOf bs) : s.allOf = some bs :=
  eq_of_shape.2.2.2.2 bs h

theorem shape_of_isEnum {s : Schema} (hr : s.reference = none) (he : s.isEnum = true) :
    s.shape = .enumeration s.enumList := by simp [shape, hr, he]

theorem isEnum_of_shape {s : Schema} {values : List Json} (h : s.shape = .enumeration values) : s.isEnum = true := by
  unfold shape shapeOfType at h
  repeat' split at h
  all_goals first
    | assumption
    | cases h

/-! ## Equality

  Two schemas are the same when all their keywords are; numbers in `enum` compare by value. -/

def sameEnum : Option (List Json) → Option (List Json) → Bool
  | none, none => true
  | some a, some b => Json.sameItems a b
  | _, _ => false

mutual

def same : Schema → Schema → Bool
  | ⟨ref, ty, format, title, description, items, properties, required, enumValues, additional, allOf, oneOf, anyOf,
      nullable, deprecated⟩, t =>
    ref == t.reference && ty == t.type && format == t.format && title == t.title && description == t.description &&
      sameOption items t.items && sameProperties properties t.properties && required == t.required &&
      sameEnum enumValues t.enumValues &&
      sameAdditional additional t.additional && sameBranches allOf t.allOf && sameBranches oneOf t.oneOf &&
      sameBranches anyOf t.anyOf && nullable == t.nullable && deprecated == t.deprecated
termination_by structural s => s

def sameOption : Option Schema → Option Schema → Bool
  | none, none => true
  | some a, some b => same a b
  | _, _ => false
termination_by structural s => s

def sameAdditional : Option (Additional Schema) → Option (Additional Schema) → Bool
  | none, none => true
  | some (.allowed a), some (.allowed b) => a == b
  | some (.schema a), some (.schema b) => same a b
  | _, _ => false
termination_by structural s => s

def sameBranches : Option (List Schema) → Option (List Schema) → Bool
  | none, none => true
  | some a, some b => sameList a b
  | _, _ => false
termination_by structural s => s

def sameList : List Schema → List Schema → Bool
  | [], [] => true
  | a :: as, b :: bs => same a b && sameList as bs
  | _, _ => false
termination_by structural s => s

def sameProperties : Option (List (String × Schema)) → Option (List (String × Schema)) → Bool
  | none, none => true
  | some a, some b => sameFields a b
  | _, _ => false
termination_by structural s => s

def sameFields : List (String × Schema) → List (String × Schema) → Bool
  | [], [] => true
  | (k, a) :: as, (l, b) :: bs => k == l && same a b && sameFields as bs
  | _, _ => false
termination_by structural s => s

end

end Schema

end ClientGen
