import ClientGen.Proofs.Mapping.Agreement

/-
  ClientGen.Proofs.Mapping.Opaque — what becomes opaque where nothing may be declared.

  The type of a schema is built around that of its core: the schema that is left when items of
  arrays, values of maps and single branches have been taken off. An array or a map around it
  adds no `any` and no diagnostic (`mapType_core`), so whether a type has an `any`, and whether
  something is reported, is decided at the core.
  - An array without items and an object without a value schema say nothing of their values: their
    `any` is what they mean. Composites, `anyOf` and unknown types are reported.
  - An enum without a primitive is the one core that becomes `any` and is not reported
    (`opaque_reported_iff`, `nullable_enum_unreported`).
-/

namespace ClientGen

/-- Whether a type has an `any` in it. -/
def TypeRef.hasAny : TypeRef → Bool
  | .any => true
  | .array item => item.hasAny
  | .map value => value.hasAny
  | _ => false

namespace Schema

/-- The schema of the items of an array, of the values of a map, or of a single branch. -/
def inner? (s : Schema) : Option Schema :=
  match s.shape with
  | .array items => items
  | .object => if s.hasProperties then none else s.additionalSchema
  | .allOf [branch] => some branch
  | _ => none

theorem sizeOf_lt_of_inner {s inner : Schema} (h : s.inner? = some inner) : sizeOf inner < sizeOf s := by
  unfold inner? at h
  split at h
  · exact sizeOf_lt_of_items (items_of_shape (h ▸ ‹_›))
  · split at h
    · cases h
    · exact sizeOf_lt_of_additionalSchema h
  · cases h
    exact sizeOf_lt_of_allOf (allOf_of_shape ‹_›) List.mem_cons_self
  · cases h

/-- What a schema comes down to: it has nothing inside that it stands for. -/
def core (s : Schema) : Schema :=
  match h : s.inner? with
  | some inner =>
    have : sizeOf inner < sizeOf s := sizeOf_lt_of_inner h
    inner.core
  | none => s
termination_by sizeOf s

theorem core_of_inner {s inner : Schema} (h : s.inner? = some inner) : s.core = inner.core := by
  rw [core]
  split <;> simp_all

theorem core_of_none {s : Schema} (h : s.inner? = none) : s.core = s := by
  rw [core]
  split <;> simp_all

/-- An array without items, or an object without a schema for its values. -/
def Untyped (s : Schema) : Prop :=
  s.shape = .array none ∨ s.shape = .object ∧ s.hasProperties = false ∧ s.additionalSchema = none

/-- An enum without a primitive: its type is none, or it has no type and its first value is no text,
    number or boolean. -/
def KindlessEnum (s : Schema) : Prop := (∃ values, s.shape = .enumeration values) ∧ enumPrimitive? s = none

end Schema

variable {doc : Document} {subject : String} {s inner : Schema}

theorem hasAny_scalarType (p : Primitive) (format : Option String) : (scalarType p format).hasAny = false := by
  unfold scalarType
  repeat' split
  all_goals rfl

/-- What is inside a schema decides what is opaque and what is reported. -/
theorem mapType_of_inner (h : s.inner? = some inner) :
    (mapType doc subject s).1.hasAny = (mapType doc subject inner).1.hasAny ∧
      (mapType doc subject s).2 = (mapType doc subject inner).2 := by
  unfold Schema.inner? at h
  split at h
  · rename_i hshape
    rw [mapType_of_array (h ▸ hshape)]
    exact ⟨rfl, rfl⟩
  · rename_i hshape
    split at h
    · cases h
    · rename_i hprops
      rw [mapType_of_value hshape (Bool.eq_false_iff.mpr hprops) h]
      exact ⟨rfl, rfl⟩
  · rename_i hshape
    cases h
    rw [mapType_of_only hshape]
    exact ⟨rfl, rfl⟩
  · cases h

theorem mapType_core (doc : Document) (subject : String) (s : Schema) :
    (mapType doc subject s).1.hasAny = (mapType doc subject s.core).1.hasAny ∧
      (mapType doc subject s).2 = (mapType doc subject s.core).2 := by
  fun_induction Schema.core s with
  | case1 s inner hinner _ ih =>
    obtain ⟨hany, hreports⟩ := mapType_of_inner hinner
    exact ⟨hany.trans ih.1, hreports.trans ih.2⟩
  | case2 s _ => exact ⟨rfl, rfl⟩

theorem inner_core (s : Schema) : s.core.inner? = none := by
  fun_induction Schema.core s with
  | case1 s inner hinner _ ih => exact ih
  | case2 s hnone => exact hnone

/-! ## At the core -/

theorem mapType_of_kindlessEnum (h : s.KindlessEnum) : mapType doc subject s = (.any, []) := by
  obtain ⟨⟨values, hshape⟩, hnone⟩ := h
  rw [mapType]
  split <;> simp_all

theorem Schema.KindlessEnum.not_untyped (h : s.KindlessEnum) : ¬ s.Untyped := by
  obtain ⟨⟨values, hshape⟩, -⟩ := h
  rintro (harray | ⟨hobject, -, -⟩)
  · cases hshape.symm.trans harray
  · cases hshape.symm.trans hobject

/-- Every other core that becomes opaque means it or is reported. -/
theorem reports_of_core (hcore : s.inner? = none) (hkind : ¬ s.KindlessEnum)
    (hany : (mapType doc subject s).1.hasAny = true) (htyped : ¬ s.Untyped) : (mapType doc subject s).2 ≠ [] := by
  rw [mapType] at hany ⊢
  split at hany <;> rename_i hshape
  all_goals simp only [Schema.inner?, hshape] at hcore
  · cases hany
  · rw [hasAny_scalarType] at hany
    cases hany
  · split at hany
    · rw [hasAny_scalarType] at hany
      cases hany
    · exact absurd ⟨⟨_, hshape⟩, ‹_›⟩ hkind
  · exact absurd (.inl hshape) htyped
  · cases hcore
  · cases hprops : s.hasProperties with
    | true =>
      rw [if_pos rfl]
      exact List.cons_ne_nil _ _
    | false =>
      rw [hprops, if_neg Bool.false_ne_true] at hcore
      exact absurd (.inr ⟨hshape, hprops, hcore⟩) htyped
  · cases hcore
  all_goals exact List.cons_ne_nil _ _

/-- An `any` that stands for something else than an array without items or an object without a
    value schema is reported, exactly unless it stands for an enum without a primitive. -/
theorem opaque_reported_iff (doc : Document) (subject : String) (s : Schema) :
    ((mapType doc subject s).1.hasAny = true → ¬ s.core.Untyped → (mapType doc subject s).2 ≠ []) ↔
      ¬ s.core.KindlessEnum := by
  rw [(mapType_core doc subject s).1, (mapType_core doc subject s).2]
  constructor
  · intro hreported hkind
    rw [mapType_of_kindlessEnum hkind] at hreported
    exact hreported rfl hkind.not_untyped rfl
  · intro hkind hany htyped
    exact reports_of_core (inner_core s) hkind hany htyped

/-- An order or none: the first value of the enum is of no kind. -/
def nullableOrder : Schema := { Schema.blank with enumValues := some [.null, .str "asc", .str "desc"] }

def nullableOrders : Schema := { Schema.blank with type := some (.single "array"), items := some nullableOrder }

/-- The orders become opaque and nothing is reported. -/
theorem nullable_enum_unreported :
    mapType noComponents "order" nullableOrders = (.array .any, []) ∧ ¬ nullableOrders.core.Untyped := by
  have hkind : nullableOrder.KindlessEnum := ⟨⟨_, rfl⟩, by decide⟩
  have hcore : nullableOrders.core = nullableOrder := (Schema.core_of_inner rfl).trans (Schema.core_of_none rfl)
  constructor
  · rw [mapType_of_array rfl, mapType_of_kindlessEnum hkind]
  · rw [hcore]
    exact hkind.not_untyped

end ClientGen
