import Mathlib.Data.List.Basic
import ClientGen.Proofs.Run.Alike
import ClientGen.Proofs.Run.Schema

/-
  ClientGen.Proofs.Merge.Contributed — what a merge takes from its parts.

  A part contributes its properties with new keys; a part without any, and a reference without a
  target, contributes nothing and is at most reported (`contributions`). The answer of a merge depends
  on its parts only through their contributions, in order (`sameAnswers_mergeOf`). It goes on
  with the keys of all the parts so far (`contributions_append`), so parts that have no other keys
  contribute nothing (`contributions_eq_nil`), and parts without properties can be left
  out (`contributions_contributing`).
-/

namespace ClientGen

open Resolve (newProperties)

/-- New properties from one part, and the keys that the part requires. -/
structure Contribution where
  required : List String
  properties : List (String × Schema)

/-- What the parts contribute, in order, to the keys already `seen`. -/
def contributions (seen : List String) : List Part → List Contribution
  | [] => []
  | .dangling _ :: rest => contributions seen rest
  | .schema part :: rest =>
    let new := newProperties part seen
    if new = [] then contributions seen rest
    else ⟨part.required, new⟩ :: contributions (new.map (·.1) ++ seen) rest

def Part.keys : Part → List String
  | .dangling _ => []
  | .schema s => s.propertyList.keys

def partKeys (parts : List Part) : List String := parts.flatMap Part.keys

/-- The schemas among the parts that have properties. -/
def contributing (parts : List Part) : List Schema :=
  parts.filterMap fun
    | .dangling _ => none
    | .schema s => if s.hasProperties then some s else none

/-! ## Keys -/

section

variable {seen seen' : List String} {part : Schema} {parts parts' : List Part} {key : String}

theorem mem_keys_newProperties :
    key ∈ (newProperties part seen).map (·.1) ↔ key ∈ part.propertyList.keys ∧ key ∉ seen := by
  simp only [newProperties, KeyMap.keys, List.mem_map, List.mem_filter, Bool.not_eq_true', List.contains_eq_mem,
    decide_eq_false_iff_not]
  constructor
  · rintro ⟨e, ⟨he, hnew⟩, rfl⟩
    exact ⟨⟨e, he, rfl⟩, hnew⟩
  · rintro ⟨⟨e, he, rfl⟩, hnew⟩
    exact ⟨e, ⟨he, hnew⟩, rfl⟩

theorem newProperties_eq_nil_iff : newProperties part seen = [] ↔ ∀ key ∈ part.propertyList.keys, key ∈ seen := by
  rw [← List.map_eq_nil_iff (f := Prod.fst), List.eq_nil_iff_forall_not_mem]
  simp only [mem_keys_newProperties, not_and, not_not]

theorem newProperties_congr (h : ∀ key, key ∈ seen ↔ key ∈ seen') : newProperties part seen = newProperties part seen' := by
  refine List.filter_congr ?_
  intro e _
  simp [h e.1]

theorem contributions_congr (h : ∀ key, key ∈ seen ↔ key ∈ seen') :
    contributions seen parts = contributions seen' parts := by
  induction parts generalizing seen seen' with
  | nil => rfl
  | cons part rest ih =>
    cases part with
    | dangling reference => exact ih h
    | schema part =>
      have hcons : ∀ key, key ∈ (newProperties part seen').map (·.1) ++ seen ↔
          key ∈ (newProperties part seen').map (·.1) ++ seen' := fun key => by simp only [List.mem_append, h key]
      simp only [contributions, newProperties_congr h, ih h, ih hcons]

theorem partKeys_append (parts more : List Part) : partKeys (parts ++ more) = partKeys parts ++ partKeys more :=
  List.flatMap_append

/-- After a part the keys seen are its own and those from before, new or not. -/
theorem contributions_cons (part : Schema) (rest : List Part) (seen : List String) :
    contributions seen (.schema part :: rest) =
      (if newProperties part seen = [] then [] else [⟨part.required, newProperties part seen⟩]) ++
        contributions (part.propertyList.keys ++ seen) rest := by
  simp only [contributions]
  split
  · rename_i hnone
    refine contributions_congr fun key => ?_
    rw [List.mem_append, or_iff_right_of_imp (newProperties_eq_nil_iff.mp hnone key)]
  · rw [List.singleton_append]
    congr 1
    refine contributions_congr fun key => ?_
    rw [List.mem_append, List.mem_append, mem_keys_newProperties]
    by_cases hkey : key ∈ seen <;> simp [hkey]

theorem contributions_append (parts more : List Part) (seen : List String) :
    contributions seen (parts ++ more) = contributions seen parts ++ contributions (partKeys parts ++ seen) more := by
  induction parts generalizing seen with
  | nil => rfl
  | cons part rest ih =>
    cases part with
    | dangling reference => exact ih seen
    | schema part =>
      have hseen : ∀ key, key ∈ partKeys rest ++ (part.propertyList.keys ++ seen) ↔
          key ∈ partKeys (.schema part :: rest) ++ seen := by
        intro key
        simp only [partKeys, List.flatMap_cons, Part.keys, List.mem_append]
        exact or_left_comm.trans or_assoc.symm
      rw [List.cons_append, contributions_cons, contributions_cons, ih, contributions_congr hseen, List.append_assoc]

/-- The keys seen after some parts can be told from what they contribute. -/
theorem mem_partKeys_iff : key ∈ partKeys parts ++ seen ↔
    key ∈ (contributions seen parts).flatMap (·.properties.map (·.1)) ++ seen := by
  induction parts generalizing seen with
  | nil => rfl
  | cons part rest ih =>
    cases part with
    | dangling reference => exact ih
    | schema part =>
      have hpart : key ∈ partKeys (.schema part :: rest) ++ seen ↔
          key ∈ partKeys rest ++ (part.propertyList.keys ++ seen) := by
        simp only [partKeys, List.flatMap_cons, Part.keys, List.mem_append]
        exact or_assoc.trans or_left_comm
      have hnew : key ∈ part.propertyList.keys ++ seen ↔
          key ∈ (newProperties part seen).map (·.1) ++ seen := by
        rw [List.mem_append, List.mem_append, mem_keys_newProperties]
        by_cases hkey : key ∈ seen <;> simp [hkey]
      rw [hpart, ih, contributions_cons, List.flatMap_append, List.mem_append, hnew]
      split
      · rename_i hnone
        simp [hnone]
      · simp only [List.flatMap_cons, List.flatMap_nil, List.append_nil, List.mem_append]
        exact or_left_comm.trans or_assoc.symm

/-- One after the other, parts that contribute the same do so together. -/
theorem contributions_append_congr {more more' : List Part} (h : contributions seen parts = contributions seen parts')
    (hmore : contributions (partKeys parts ++ seen) more = contributions (partKeys parts ++ seen) more') :
    contributions seen (parts ++ more) = contributions seen (parts' ++ more') := by
  have hkeys : ∀ key, key ∈ partKeys parts ++ seen ↔ key ∈ partKeys parts' ++ seen := fun key => by
    rw [mem_partKeys_iff, mem_partKeys_iff, h]
  rw [contributions_append, contributions_append, h, hmore, contributions_congr hkeys]

/-- Parts whose keys were all seen contribute nothing. -/
theorem contributions_eq_nil (h : ∀ key ∈ partKeys parts, key ∈ seen) : contributions seen parts = [] := by
  induction parts with
  | nil => rfl
  | cons part rest ih =>
    have hkeys : ∀ key ∈ part.keys ++ partKeys rest, key ∈ seen := h
    obtain ⟨hpart, hrest⟩ := List.forall_mem_append.mp hkeys
    cases part with
    | dangling reference => exact ih hrest
    | schema part =>
      have hnone : newProperties part seen = [] := newProperties_eq_nil_iff.mpr hpart
      have hseen : ∀ key, key ∈ part.propertyList.keys ++ seen ↔ key ∈ seen := fun key => by
        rw [List.mem_append]
        exact or_iff_right_of_imp (hpart key)
      rw [contributions_cons, if_pos hnone, List.nil_append, contributions_congr hseen, ih hrest]

/-- Only what is contributing contributes. -/
theorem contributions_contributing (h : contributing parts = contributing parts') (seen : List String) :
    contributions seen parts = contributions seen parts' := by
  have hall (parts : List Part) (seen : List String) :
      contributions seen parts = contributions seen ((contributing parts).map .schema) := by
    induction parts generalizing seen with
    | nil => rfl
    | cons part rest ih =>
      cases part with
      | dangling reference => exact ih seen
      | schema part =>
        by_cases hprops : part.hasProperties = true
        · have hcons : contributing (.schema part :: rest) = part :: contributing rest := by
            simp [contributing, hprops]
          rw [hcons, List.map_cons, contributions_cons, contributions_cons, ih]
        · have hskip : contributing (.schema part :: rest) = contributing rest := by
            simp [contributing, hprops]
          have hempty : part.propertyList = [] := by simpa [Schema.hasProperties] using hprops
          rw [hskip, contributions_cons, hempty, newProperties, hempty, List.filter_nil, if_pos rfl]
          exact ih seen
  rw [hall parts, hall parts', h]

end

/-! ## Merging -/

namespace Resolve

variable {resolve : Resolver}

/-- Fields for contributions, in order. -/
def contributedFields (resolve : Resolver) (required : List String) (name : String) :
    List Contribution → Resolve (List Field × List Declaration)
  | [] => return ([], [])
  | c :: rest => do
    let (fields, nested) ← structFields resolve (fun key => c.required.contains key || required.contains key) name
      .allOfProperty c.properties
    let (more, moreNested) ← contributedFields resolve required name rest
    return (fields ++ more, nested ++ moreNested)

/-- Declare the struct that is merged from the parts. -/
def mergeOf (resolve : Resolver) (s : Schema) (parts : List Part) (name : String) : Resolve Resolution :=
  declaring name s do
    let (fields, nested) ← partFields resolve s name 1 [] parts
    return (.type ⟨name, .struct (sortedFields fields), s.documentation, false⟩, nested)

theorem mergeAllOf_eq (doc : Document) (resolve : Resolver) (s : Schema) (branches : List Schema) (name : String) :
    mergeAllOf doc resolve s branches name = mergeOf resolve s (mergeParts doc s branches) name := rfl

section

variable (hresolve : ∀ sch name position, AnswersAlike (resolve sch name position) (resolve sch name position))
include hresolve

theorem sameAnswers_structFields (isRequired : String → Bool) (parent : String) (position : Position)
    (properties : List (String × Schema)) :
    SameAnswers (structFields resolve isRequired parent position properties)
      (structFields resolve isRequired parent position properties) :=
  .of_answersAlike (stepwise_answersAlike.structFields hresolve isRequired parent position properties)

/-- Parts are reported or passed over, or else they contribute. -/
theorem sameAnswers_partFields (sch : Schema) (name : String) (number : Nat) (seen : List String)
    (parts : List Part) :
    SameAnswers (partFields resolve sch name number seen parts)
      (contributedFields resolve sch.required name (contributions seen parts)) := by
  induction parts generalizing number seen with
  | nil => exact .pure _
  | cons part rest ih =>
    cases part with
    | dangling reference => exact (ih (number + 1) seen).report _
    | schema part =>
      by_cases hprops : part.hasProperties = true
      · by_cases hnew : newProperties part seen = []
        · have heq : partFields resolve sch name number seen (.schema part :: rest) =
              partFields resolve sch name (number + 1) seen rest := by
            have hfilter : part.propertyList.filter (fun e => !decide (e.1 ∈ seen)) = [] := by
              simpa only [newProperties, List.contains_eq_mem] using hnew
            simp [partFields, hprops, hfilter, structFields]
          rw [heq, contributions, if_pos hnew]
          exact ih _ _
        · simp only [partFields, if_pos hprops, contributions, if_neg hnew]
          exact .bind (sameAnswers_structFields hresolve _ _ _ _) fun _ => .bind (ih _ _) fun _ => .pure _
      · have hnew : newProperties part seen = [] := by
          have hempty : part.propertyList = [] := by simpa [Schema.hasProperties] using hprops
          rw [newProperties, hempty, List.filter_nil]
        simp only [partFields, if_neg hprops, contributions, if_pos hnew]
        exact (ih _ _).report _

/-- A merge answers by what its parts contribute. -/
theorem sameAnswers_mergeOf {sch sch' : Schema} (hrequired : sch.required = sch'.required)
    (hdocumentation : sch.documentation = sch'.documentation) {parts parts' : List Part}
    (h : contributions [] parts = contributions [] parts') (name : String) :
    SameAnswers (mergeOf resolve sch parts name) (mergeOf resolve sch' parts' name) := by
  have hfields : SameAnswers (partFields resolve sch name 1 [] parts) (partFields resolve sch' name 1 [] parts') := by
    refine (sameAnswers_partFields hresolve sch name 1 [] parts).trans ?_
    rw [hrequired, h]
    exact (sameAnswers_partFields hresolve sch' name 1 [] parts').symm
  refine .declaring (hfields.bind fun _ => ?_) name sch sch'
  rw [hdocumentation]
  exact .pure _

end

end Resolve

end ClientGen
