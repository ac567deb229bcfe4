import ClientGen.Go.Declare
import ClientGen.Proofs.Query.Statement
import ClientGen.Query

/-
  ClientGen.Proofs.Query.Running — the statement of a query encoder against the type of its field.

  Which statement converts a field is decided by the conversion (repeated, required) and by the type
  as it is written; whether the field is a pointer, by the type and optionality alone. Neither asks the other.
  - A field holds nil, a pointer or a value of its type (`Holds`). Running the statement on what the
    field holds never takes a pointer for a value and never follows nil (`run_ofConversion`).
  - What a statement reads, what of it without a test, and what it does below its tests can be seen
    from the outside as well (`Statement.Suits`).
  - `queryStatement_fits` says all of it of every field of a params struct.
-/

namespace ClientGen.Go

/-! ## What fields hold -/

/-- A value of a generated program. -/
inductive GoValue (α : Type) where
  /-- No pointer, or an empty value of a type that needs none. -/
  | nil
  | pointer (target : GoValue α)
  | slice (items : List α)
  | plain (x : α)

/-- What a statement does to the query. -/
inductive QueryChange (α : Type) where
  | set (value : GoValue α)
  | add (value : GoValue α)

variable {α : Type}

/-- Reading a value. A pointer is no value of the field's type, and nil points to nothing. -/
def Operand.read (v : GoValue α) (element : Option α) : Operand → Option (GoValue α)
  | .field =>
    match v with
    | .pointer _ => none
    | v => some v
  | .pointee =>
    match v with
    | .pointer target => some target
    | _ => none
  | .element => element.map .plain

/-- The elements of a loop: there are none in nil. -/
def GoValue.items? : GoValue α → Option (List α)
  | .nil => some []
  | .slice items => some items
  | _ => none

/-- What a statement does when the field holds `v`, if it gets through. -/
def Statement.run (v : GoValue α) (element : Option α) : Statement → Option (List (QueryChange α))
  | .set value => (value.read v element).map fun x => [.set x]
  | .add value => (value.read v element).map fun x => [.add x]
  | .range values body =>
    ((values.read v element).bind GoValue.items?).bind fun items =>
      (items.mapM fun x => body.run v (some x)).map List.flatten
  | .ifNotNil body =>
    match v with
    | .nil => some []
    | v => body.run v element

/-- The values of a type that a conversion takes. Slices, maps and values of any kind can be nil. -/
def Content (c : Conversion) : GoValue α → Prop
  | .nil => True
  | .pointer _ => False
  | .slice _ => c.repeated = true
  | .plain _ => c.repeated = false

/-- What a field of the Go type `goType` can hold. -/
def Holds (c : Conversion) (f : Field) (goType : String) (v : GoValue α) : Prop :=
  if goType = "*" ++ typeName f.type then v = .nil ∨ ∃ target, v = .pointer target ∧ Content c target else Content c v

/-- One pair for each element of a repeated value, one for any other. -/
def pairsOf (c : Conversion) : GoValue α → List (QueryChange α)
  | .slice items => items.map fun x => .add (.plain x)
  | .nil => if c.repeated then [] else [.set .nil]
  | v => [.set v]

/-- What a field adds: nothing when it is left out, and otherwise the pairs of its value. -/
def pairsOfField (c : Conversion) (f : Field) : GoValue α → List (QueryChange α)
  | .nil => if f.optional then [] else pairsOf c .nil
  | .pointer target => pairsOf c target
  | v => pairsOf c v

/-! ## Running a statement -/

theorem typeName_ne_pointer (t : TypeRef) : typeName t ≠ "*" ++ typeName t := by
  intro h
  have hlength := congrArg String.length h
  rw [String.length_append] at hlength
  simp at hlength

/-- Exactly optional fields without a nil of their own are pointers. -/
theorem fieldTypeName_eq_pointer_iff {t : TypeRef} {optional : Bool} :
    fieldTypeName t optional = "*" ++ typeName t ↔ optional = true ∧ isNilable t = false := by
  unfold fieldTypeName
  cases optional with
  | false => simpa using typeName_ne_pointer t
  | true =>
    cases hnilable : isNilable t with
    | false => simp
    | true => simpa using typeName_ne_pointer t

namespace Statement

/-- The elements of a loop are independent of each other. -/
theorem mapM_add (v : GoValue α) (items : List α) :
    (items.mapM fun x => (add .element).run v (some x)) = some (items.map fun x => [.add (.plain x)]) := by
  induction items with
  | nil => rfl
  | cons x rest ih => rw [List.mapM_cons, ih]; rfl

theorem run_range {c : Conversion} {v w : GoValue α} {values : Operand} (hrepeated : c.repeated = true)
    (hread : values.read v none = some w) (hw : Content c w) :
    (range values (add .element)).run v none = some (pairsOf c w) := by
  cases w with
  | nil => simp [run, hread, GoValue.items?, pairsOf, hrepeated]
  | pointer target => exact hw.elim
  | slice items =>
    have hitems : (values.read v none).bind GoValue.items? = some items := by rw [hread]; rfl
    calc (range values (add .element)).run v none
      _ = (items.mapM fun x => (add .element).run v (some x)).map List.flatten := by rw [run, hitems]; rfl
      _ = some (items.flatMap fun x => [.add (.plain x)]) := by rw [mapM_add]; rfl
      _ = some (pairsOf c (.slice items)) := by rw [← List.map_eq_flatMap]; rfl
  | plain x => exact absurd (hrepeated.symm.trans hw) (by decide)

theorem run_set {c : Conversion} {v w : GoValue α} {value : Operand} (hsingle : c.repeated = false)
    (hread : value.read v none = some w) (hw : Content c w) :
    (set value).run v none = some (pairsOf c w) := by
  cases w with
  | nil => simp [run, hread, pairsOf, hsingle]
  | pointer target => exact hw.elim
  | slice items => exact absurd (hsingle.symm.trans hw) (by decide)
  | plain x => simp [run, hread, pairsOf]

theorem run_convert {c : Conversion} {v w : GoValue α} {value : Operand} (hread : value.read v none = some w)
    (hw : Content c w) : (convert c value).run v none = some (pairsOf c w) := by
  cases hrepeated : c.repeated with
  | true => simpa [convert, hrepeated] using run_range hrepeated hread hw
  | false => simpa [convert, hrepeated] using run_set hrepeated hread hw

theorem run_ifNotNil {v : GoValue α} (body : Statement) (hv : v ≠ .nil) :
    (ifNotNil body).run v none = body.run v none := by
  cases v with
  | nil => exact absurd rfl hv
  | _ => rfl

end Statement

theorem Operand.read_field {c : Conversion} {v : GoValue α} (hv : Content c v) :
    Operand.field.read v none = some v := by
  cases v with
  | pointer target => exact hv.elim
  | _ => rfl

/-- A value that is there is converted, whether or not it may be left out. -/
theorem pairsOfField_content {c : Conversion} {f : Field} {v : GoValue α} (hv : Content c v)
    (hthere : f.optional = false ∨ v ≠ .nil) : pairsOfField c f v = pairsOf c v := by
  cases v with
  | nil =>
    have hrequired : f.optional = false := hthere.resolve_right (· rfl)
    simp [pairsOfField, hrequired]
  | pointer target => exact hv.elim
  | _ => rfl

namespace Statement

variable {c : Conversion} {f : Field} {v : GoValue α}

/-- A field of a nilable type is left out when it is nil. -/
theorem run_nilable (hoptional : f.optional = true) (hrequired : c.required = false)
    (hnilable : isNilable f.type = true) (hv : Content c v) :
    (ofConversion c f).run v none = some (pairsOfField c f v) := by
  by_cases hnil : v = .nil
  · subst hnil
    cases hrepeated : c.repeated with
    | true => simp [ofConversion, convert, run, Operand.read, GoValue.items?, pairsOfField, *]
    | false => simp [ofConversion, convert, run, pairsOfField, *]
  · rw [pairsOfField_content hv (.inr hnil), ← run_convert (Operand.read_field hv) hv]
    cases hrepeated : c.repeated with
    | true => simp [ofConversion, *]
    | false => simp [ofConversion, run_ifNotNil, *]

/-- Any other optional field is a pointer and is left out when it is nil. -/
theorem run_pointer (hoptional : f.optional = true) (hrequired : c.required = false)
    (hnilable : isNilable f.type = false) (hv : v = .nil ∨ ∃ target, v = .pointer target ∧ Content c target) :
    (ofConversion c f).run v none = some (pairsOfField c f v) := by
  have hstatement : ofConversion c f = .ifNotNil (convert c .pointee) := by simp [ofConversion, hrequired, hnilable]
  rw [hstatement]
  obtain rfl | ⟨target, rfl, htarget⟩ := hv
  · simp [run, pairsOfField, hoptional]
  · exact run_convert rfl htarget

theorem run_ofConversion (hrequired : c.required = !f.optional) (hv : Holds c f (fieldTypeName f.type f.optional) v) :
    (ofConversion c f).run v none = some (pairsOfField c f v) := by
  by_cases hpointer : fieldTypeName f.type f.optional = "*" ++ typeName f.type
  · obtain ⟨hoptional, hnilable⟩ := fieldTypeName_eq_pointer_iff.mp hpointer
    rw [Holds, if_pos hpointer] at hv
    exact run_pointer hoptional (by rw [hrequired, hoptional]; rfl) hnilable hv
  · rw [Holds, if_neg hpointer] at hv
    cases hoptional : f.optional with
    | false =>
      have hstatement : ofConversion c f = convert c .field := by simp [ofConversion, hrequired, hoptional]
      rw [hstatement, pairsOfField_content hv (.inl hoptional)]
      exact run_convert (Operand.read_field hv) hv
    | true =>
      have hnilable : isNilable f.type = true := by
        simpa [fieldTypeName_eq_pointer_iff, hoptional] using hpointer
      exact run_nilable hoptional (by rw [hrequired, hoptional]; rfl) hnilable hv

/-- The statement does what the Go type of the field asks for. -/
structure Suits (s : Statement) (c : Conversion) (f : Field) (goType : String) : Prop where
  dereferences : .pointee ∈ s.operands ↔ goType = "*" ++ typeName f.type
  /-- Every dereference is under a nil test. -/
  tested : .pointee ∉ s.untested
  optional : f.optional = true →
    (∃ body, s = .ifNotNil body) ∨ ∃ body, s = .range .field body ∧ isNilable f.type = true
  /-- A required field is converted without a test. -/
  required : f.optional = false → s.action = s
  repeated : c.repeated = true → ∃ values, s.action = .range values (.add .element)
  single : c.repeated = false → ∃ value, s.action = .set value
  runs : ∀ {α : Type} (v : GoValue α), Holds c f goType v → s.run v none = some (pairsOfField c f v)

theorem action_convert (c : Conversion) (value : Operand) : (convert c value).action = convert c value := by
  unfold convert
  split <;> rfl

/-- Below its tests, every statement converts the field or what the field points to. -/
theorem exists_action_ofConversion (c : Conversion) (f : Field) :
    ∃ value, (ofConversion c f).action = convert c value := by
  unfold ofConversion
  split
  · exact ⟨.field, action_convert c .field⟩
  · split
    · split <;> exact ⟨.field, action_convert c .field⟩
    · exact ⟨.pointee, action_convert c .pointee⟩

theorem pointee_mem_convert {c : Conversion} {value : Operand} :
    .pointee ∈ (convert c value).operands ↔ value = .pointee := by
  unfold convert
  split <;> simp [operands, eq_comm]

theorem pointee_mem_untested_convert {c : Conversion} {value : Operand} :
    .pointee ∈ (convert c value).untested ↔ value = .pointee := by
  unfold convert
  split <;> simp [untested, eq_comm]

theorem pointee_mem_ofConversion {c : Conversion} {f : Field} :
    .pointee ∈ (ofConversion c f).operands ↔ c.required = false ∧ isNilable f.type = false := by
  unfold ofConversion
  by_cases hrequired : c.required = true
  · simp [hrequired, pointee_mem_convert]
  · by_cases hnilable : isNilable f.type = true
    · cases c.repeated <;> simp [hrequired, hnilable, operands, pointee_mem_convert]
    · simp [hrequired, hnilable, operands, pointee_mem_convert]

theorem pointee_not_mem_untested (c : Conversion) (f : Field) : .pointee ∉ (ofConversion c f).untested := by
  unfold ofConversion
  by_cases hrequired : c.required = true
  · simp [hrequired, pointee_mem_untested_convert]
  · by_cases hnilable : isNilable f.type = true
    · cases c.repeated <;> simp [hrequired, hnilable, untested, pointee_mem_untested_convert]
    · simp [hrequired, hnilable, untested]

theorem suits_ofConversion {c : Conversion} {f : Field} (hrequired : c.required = !f.optional) :
    (ofConversion c f).Suits c f (fieldTypeName f.type f.optional) where
  dereferences := by
    rw [pointee_mem_ofConversion, fieldTypeName_eq_pointer_iff, hrequired, Bool.not_eq_false']
  tested := pointee_not_mem_untested c f
  optional hoptional := by
    rw [hoptional] at hrequired
    cases hnilable : isNilable f.type with
    | false => exact .inl ⟨convert c .pointee, by simp [ofConversion, hrequired, hnilable]⟩
    | true =>
      cases hrepeated : c.repeated with
      | false => exact .inl ⟨convert c .field, by simp [ofConversion, hrequired, hnilable, hrepeated]⟩
      | true => exact .inr ⟨.add .element, by simp [ofConversion, convert, hrequired, hnilable, hrepeated], rfl⟩
  required hoptional := by
    rw [hoptional] at hrequired
    have hstatement : ofConversion c f = convert c .field := by simp [ofConversion, hrequired]
    rw [hstatement, action_convert]
  repeated hrepeated := by
    obtain ⟨value, haction⟩ := exists_action_ofConversion c f
    exact ⟨value, by simp [haction, convert, hrepeated]⟩
  single hsingle := by
    obtain ⟨value, haction⟩ := exists_action_ofConversion c f
    exact ⟨value, by simp [haction, convert, hsingle]⟩
  runs _ hv := run_ofConversion hrequired hv

end Statement

/-- The statement for a params field is exactly one, and it suits the type that the field is declared with. -/
theorem queryStatement_fits (r : Registry) (f : Field) (isError : Bool) :
    ∃ s : Statement,
      (∀ s' : Statement,
        queryStatement (Conversion.ofField r f) f = s'.text (Conversion.ofField r f) "\t" ↔ s' = s) ∧
      s.Suits (Conversion.ofField r f) f (structField isError f).type := by
  refine ⟨.ofConversion (.ofField r f) f, fun s' => ⟨fun h => ?_, fun h => ?_⟩, Statement.suits_ofConversion rfl⟩
  · rw [Statement.queryStatement_eq_text] at h
    exact (Statement.text_injective h).symm
  · rw [h, Statement.queryStatement_eq_text]

end ClientGen.Go
