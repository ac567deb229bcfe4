import ClientGen.Proofs.Merge.Fields

/-
  ClientGen.Proofs.Merge.Required — which fields of a merged struct are required.

  What an `allOf` joins holds all at once, so one schema that requires a key is enough: the merged
  schema, or any that it reaches, whether or not that schema has properties (`RequiredBy`).
  A field asks two schemas only, the merged one and the one that its property was taken from.
  - So nothing is required without a schema that says so, and what either of the two requires
    is required (`field_required_iff`).
  - A requirement is lost exactly when it is made somewhere else (`RequirementLost`): in a branch
    that only has `required`, in a branch that requires a property of another, or in an `allOf`
    that was flattened (`mergeAllOf_required_iff`).
  - Merged by itself, that same `allOf` does require the key: `records` has one schema merged
    both ways (`flattening_loses_required`).
-/

namespace ClientGen

variable {doc : Document} {sch : Schema} {branches : List Schema} {name key : String} {v : Visit}

/-- A schema that is merged requires the key: the merged schema itself, or one that it reaches. -/
def RequiredBy (doc : Document) (sch : Schema) (branches : List Schema) (key : String) : Prop :=
  key ∈ sch.required ∨ ∃ t, Reached doc branches t ∧ key ∈ t.required

/-- A schema that the merge reaches requires the key of a property, but neither the merged schema
    does nor the one that the property was taken from. -/
structure RequirementLost (doc : Document) (sch : Schema) (branches : List Schema) (v : Visit) : Prop where
  reached : ∃ t, Reached doc branches t ∧ v.key ∈ t.required
  notMerged : v.key ∉ sch.required
  notPart : v.key ∉ v.part.required

theorem field_required_iff (doc : Document) (sch : Schema) (name : String) (v : Visit) :
    (v.field doc sch name).optional = false ↔ v.key ∈ v.part.required ∨ v.key ∈ sch.required := by
  simp only [Visit.field, Bool.not_eq_false', Bool.or_eq_true, List.contains_iff_mem]

/-- The schema that a property was taken from is one of those that are merged. -/
theorem requiredBy_of_part (hv : v ∈ taken (mergeParts doc sch branches)) (hkey : v.key ∈ v.part.required) :
    RequiredBy doc sch branches v.key := by
  obtain ⟨hpart, -, -⟩ := first_of_mem_taken hv
  rcases reached_of_mem_mergeParts (List.mem_of_getElem? hpart) with heq | hreached
  · left
    rw [← heq]
    exact hkey
  · right
    exact ⟨v.part, hreached, hkey⟩

/-- A field tells whether its key is required, unless the requirement is lost. -/
theorem required_iff_not_lost (hv : v ∈ taken (mergeParts doc sch branches)) (name : String) :
    ((v.field doc sch name).optional = false ↔ RequiredBy doc sch branches v.key) ↔
      ¬ RequirementLost doc sch branches v := by
  rw [field_required_iff]
  constructor
  · intro htells hlost
    rcases htells.mpr (.inr hlost.reached) with hpart | hmerged
    · exact hlost.notPart hpart
    · exact hlost.notMerged hmerged
  · intro hnotLost
    constructor
    · rintro (hpart | hmerged)
      · exact requiredBy_of_part hv hpart
      · exact .inl hmerged
    · rintro (hmerged | hreached)
      · exact .inr hmerged
      · by_cases hpart : v.key ∈ v.part.required
        · exact .inl hpart
        · by_cases hmerged : v.key ∈ sch.required
          · exact .inr hmerged
          · exact absurd ⟨hreached, hmerged, hpart⟩ hnotLost

/-- Every field of a merged struct comes from the property taken for its key. -/
theorem MergedFields.exists_taken {fields : List Field} (h : MergedFields doc sch branches name fields) {f : Field}
    (hf : f ∈ fields) : ∃ v ∈ taken (mergeParts doc sch branches), f = v.field doc sch name := by
  obtain ⟨v, hv, hfield⟩ := List.mem_map.mp (h.perm.mem_iff.mp hf)
  exact ⟨v, mem_of_mem_firstByKeyFrom hv, hfield.symm⟩

open Resolve in
/-- A field of a merged struct is required exactly when a schema of the merge requires its key,
    unless that requirement is lost, and then the field is optional. -/
theorem mergeAllOf_required_iff {fuel : Nat} {s s' : Session} {r : Resolution} (hfresh : name ∉ s.registry.keys)
    (h : Runs (mergeAllOf doc (resolveAt doc fuel) sch branches name) s r s') :
    ∃ fields nested, r = ⟨.named name, .type ⟨name, .struct fields, sch.documentation, false⟩ :: nested⟩ ∧
      ∀ f ∈ fields, ∃ v ∈ taken (mergeParts doc sch branches), f = v.field doc sch name ∧
        ((f.optional = false ↔ RequiredBy doc sch branches f.key) ↔ ¬ RequirementLost doc sch branches v) := by
  obtain ⟨fields, nested, hr, hfields⟩ := mergeAllOf_fields hfresh h
  refine ⟨fields, nested, hr, ?_⟩
  intro f hf
  obtain ⟨v, hv, rfl⟩ := hfields.exists_taken hf
  exact ⟨v, hv, rfl, required_iff_not_lost hv name⟩

/-! ## A requirement that flattening loses -/

/-- Requires a property of its only branch. -/
def entity : Schema :=
  { Schema.blank with
    allOf := some [{ Schema.blank with properties := some [("id", typed "string")] }], required := ["id"] }

/-- An entity with a tag. -/
def taggedRecord : Schema :=
  { Schema.blank with
    allOf := some [{ Schema.blank with reference := some "#/components/schemas/Entity" },
      { Schema.blank with properties := some [("tag", typed "string")] }] }

def records : Document :=
  { openapi := "3.0.0", info := ⟨"t", "1", none⟩, servers := [], tags := [], paths := []
    components := ⟨[("Entity", entity), ("Record", taggedRecord)], [], [], []⟩ }

/-- What the record declares: both fields are optional. -/
def recordStruct : TypeDecl :=
  ⟨"Record", .struct [⟨"Id", .scalar .string, true, "id", none⟩, ⟨"Tag", .scalar .string, true, "tag", none⟩], none,
    false⟩

open Resolve in
theorem record_runs : ∃ s', Runs (mergeAllOf records (resolveAt records 1) taggedRecord (taggedRecord.allOf.getD [])
    "Record") .start ⟨.named "Record", [.type recordStruct]⟩ s' := by
  apply exists_runs_of_answers
  cbv

open Resolve in
theorem mergeAllOf_required_iff_record :
    "Record" ∉ Session.start.registry.keys ∧
      ∃ s', Runs (mergeAllOf records (resolveAt records 1) taggedRecord (taggedRecord.allOf.getD []) "Record") .start
          ⟨.named "Record", [.type recordStruct]⟩ s' ∧
        ∃ fields nested, Resolution.mk (.named "Record") [.type recordStruct] =
            ⟨.named "Record", .type ⟨"Record", .struct fields, taggedRecord.documentation, false⟩ :: nested⟩ ∧
          ∀ f ∈ fields, ∃ v ∈ taken (mergeParts records taggedRecord (taggedRecord.allOf.getD [])),
            f = v.field records taggedRecord "Record" ∧
              ((f.optional = false ↔ RequiredBy records taggedRecord (taggedRecord.allOf.getD []) f.key) ↔
                ¬ RequirementLost records taggedRecord (taggedRecord.allOf.getD []) v) := by
  have hfresh : "Record" ∉ Session.start.registry.keys := List.not_mem_nil
  obtain ⟨s', h⟩ := record_runs
  exact ⟨hfresh, s', h, mergeAllOf_required_iff hfresh h⟩

open Resolve in
/-- Merged by itself the entity requires its `id`. Merged into the record it still holds of every
    value, and the `id` has become optional. -/
theorem flattening_loses_required :
    (∃ s', Runs (mergeAllOf records (resolveAt records 1) entity (entity.allOf.getD []) "Entity") .start
        ⟨.named "Entity", [.type ⟨"Entity", .struct [⟨"Id", .scalar .string, false, "id", none⟩], none, false⟩]⟩ s') ∧
      RequiredBy records taggedRecord (taggedRecord.allOf.getD []) "id" ∧
      ∃ s', Runs (mergeAllOf records (resolveAt records 1) taggedRecord (taggedRecord.allOf.getD []) "Record") .start
        ⟨.named "Record", [.type ⟨"Record", .struct [⟨"Id", .scalar .string, true, "id", none⟩,
          ⟨"Tag", .scalar .string, true, "tag", none⟩], none, false⟩]⟩ s' := by
  refine ⟨?_, ?_, record_runs⟩
  · apply exists_runs_of_answers
    cbv
  · have hentity : records.schemaByRef? "#/components/schemas/Entity" = some entity := by cbv
    right
    exact ⟨entity, .branch List.mem_cons_self (.component rfl hentity), List.mem_cons_self⟩

end ClientGen
