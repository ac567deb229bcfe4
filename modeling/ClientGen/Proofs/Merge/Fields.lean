import Mathlib
import ClientGen.Proofs.Merge.First
import ClientGen.Proofs.Merge.Reached
import ClientGen.Proofs.Run.Type

/-
  ClientGen.Proofs.Merge.Fields — the fields of a merged struct.

  A merge visits the properties of its parts, part by part (`visits`). Two rules leave some out:
  of every key the first visit counts (`taken`), and of every identifier the first key
  (`kept`). The second decides alone, since a key has one identifier; so it does not matter that a
  merge applies them one part at a time (`runs_partFields`).
  `MergedFields` says what the struct holds, whatever references lead in a circle, and
  `mergeAllOf_fields` that a merge under a fresh name declares it. In a document that is read the
  parts have their keys in order (`visits_inOrder_of_text`).
-/

namespace ClientGen

variable {doc : Document}

/-! ## Visiting properties -/

/-- A property met in the part at an index. -/
structure Visit where
  index : Nat
  part : Schema
  key : String
  property : Schema

def visitsFrom (index : Nat) : List Part → List Visit
  | [] => []
  | .dangling _ :: rest => visitsFrom (index + 1) rest
  | .schema part :: rest =>
    part.propertyList.map (fun (key, property) => ⟨index, part, key, property⟩) ++ visitsFrom (index + 1) rest

def visits (parts : List Part) : List Visit := visitsFrom 0 parts

/-- Every key from the first part that has it. -/
def taken (parts : List Part) : List Visit := firstByKey (·.key) (visits parts)

/-- Every identifier by the first key that has it. -/
def kept (parts : List Part) : List Visit := firstByKey (fun v => Name.identifier v.key) (taken parts)

/-- The field that a merge makes of a property: optional unless its part or the merge requires it. -/
def Visit.field (doc : Document) (sch : Schema) (name : String) (v : Visit) : Field :=
  ⟨Name.identifier v.key, typeAt doc v.property (name ++ Name.identifier v.key) .allOfProperty,
    !(v.part.required.contains v.key || sch.required.contains v.key), v.key, v.property.documentation⟩

/-- Parts from left to right, and inside a part keys in an order. -/
def Visit.InOrder (lt : String → String → Prop) (v w : Visit) : Prop :=
  v.index < w.index ∨ v.index = w.index ∧ lt v.key w.key

variable {parts : List Part} {index : Nat} {v : Visit}

theorem mem_visitsFrom : v ∈ visitsFrom index parts ↔
    ∃ i, v.index = index + i ∧ parts[i]? = some (.schema v.part) ∧ (v.key, v.property) ∈ v.part.propertyList := by
  induction parts generalizing index with
  | nil => simp [visitsFrom]
  | cons part rest ih =>
    rw [← Nat.or_exists_add_one]
    cases part with
    | dangling reference => simp [visitsFrom, ih, Nat.add_assoc, Nat.add_comm 1]
    | schema part =>
      obtain ⟨i, p, key, property⟩ := v
      simp only [visitsFrom, List.mem_append, List.mem_map, ih, List.getElem?_cons_zero, List.getElem?_cons_succ]
      refine or_congr ?_ (by simp only [Nat.add_assoc, Nat.add_comm 1])
      grind

theorem visitsFrom_inOrder {lt : String → String → Prop}
    (h : ∀ part, .schema part ∈ parts → part.propertyList.Pairwise (fun a b => lt a.1 b.1)) :
    (visitsFrom index parts).Pairwise (Visit.InOrder lt) := by
  induction parts generalizing index with
  | nil => exact .nil
  | cons part rest ih =>
    have hrest : (visitsFrom (index + 1) rest).Pairwise (Visit.InOrder lt) :=
      ih fun p hp => h p (List.mem_cons_of_mem _ hp)
    cases part with
    | dangling reference => exact hrest
    | schema part =>
      refine List.pairwise_append.mpr ⟨?_, hrest, fun v hv w hw => .inl ?_⟩
      · exact List.pairwise_map.mpr ((h part List.mem_cons_self).imp fun hlt => .inr ⟨rfl, hlt⟩)
      · obtain ⟨e, -, rfl⟩ := List.mem_map.mp hv
        obtain ⟨i, hi, -⟩ := mem_visitsFrom.mp hw
        show index < w.index
        omega

/-! ## The fields of a run -/

open Resolve in
/-- The fields of the parts, each name first, are those of the visits, each identifier first. -/
theorem runs_partFields {fuel : Nat} {sch : Schema} {name : String} {number : Nat} {seen names : List String}
    {s s' : Session} {fields : List Field} {ds : List Declaration} (hseen : ∀ key ∈ seen, Name.identifier key ∈ names)
    (h : Runs (partFields (resolveAt doc fuel) sch name number seen parts) s (fields, ds) s') :
    firstByKeyFrom (·.name) names fields =
      (firstByKeyFrom (fun v => Name.identifier v.key) names (visitsFrom index parts)).map (Visit.field doc sch name) := by
  induction parts generalizing number seen names s fields ds index with
  | nil =>
    simp only [partFields, runs_pure] at h
    cases h.1
    rfl
  | cons part rest ih =>
    rcases runs_partFields_cons h with ⟨t, -, hempty, hrest⟩ | ⟨branch, t, own, ownDs, more, moreDs, rfl, hown, hrest, rfl, -⟩
    · have hvisits : visitsFrom index (part :: rest) = visitsFrom (index + 1) rest := by
        cases part with
        | dangling reference => rfl
        | schema branch => rw [visitsFrom, hempty branch rfl]; rfl
      rw [hvisits]
      exact ih hseen hrest
    · -- The visits of this part, of which only those with new keys have become fields.
      let own' := branch.propertyList.map fun (key, property) => (⟨index, branch, key, property⟩ : Visit)
      have hown : own = (own'.filter fun v => !seen.contains v.key).map (Visit.field doc sch name) := by
        rw [fields_of_structFields hown, newProperties, List.filter_map, List.map_map]
        rfl
      have hold : ∀ v ∈ own', (!seen.contains v.key) = false → Name.identifier v.key ∈ names := fun v _ hv =>
        hseen v.key (by simpa using hv)
      have hnames : ∀ k, k ∈ own.map (·.name) ++ names ↔ k ∈ own'.map (Name.identifier ·.key) ++ names := by
        intro k
        rw [List.mem_append, List.mem_append, hown, List.map_map]
        constructor
        · rintro (h | h)
          · obtain ⟨v, hv, rfl⟩ := List.mem_map.mp h
            exact .inl (List.mem_map_of_mem (List.mem_filter.mp hv).1)
          · exact .inr h
        · rintro (h | h)
          · obtain ⟨v, hv, rfl⟩ := List.mem_map.mp h
            cases hkeep : !seen.contains v.key with
            | false => exact .inr (hold v hv hkeep)
            | true => exact .inl (List.mem_map.mpr ⟨v, List.mem_filter.mpr ⟨hv, hkeep⟩, rfl⟩)
          · exact .inr h
      have hnew : ∀ key ∈ (newProperties branch seen).map (·.1) ++ seen,
          Name.identifier key ∈ own.map (·.name) ++ names := by
        intro key hkey
        rcases List.mem_append.mp hkey with hkey | hkey
        · obtain ⟨e, he, rfl⟩ := List.mem_map.mp hkey
          refine (hnames _).mpr (List.mem_append_left _ (List.mem_map.mpr ⟨_, List.mem_map_of_mem ?_, rfl⟩))
          exact (List.mem_filter.mp he).1
        · exact List.mem_append_right _ (hseen key hkey)
      rw [firstByKeyFrom_append, ih hnew hrest, visitsFrom, firstByKeyFrom_append, List.map_append]
      congr 1
      · rw [hown, firstByKeyFrom_map]
        exact congrArg _ (firstByKeyFrom_filter hold)
      · rw [firstByKeyFrom_congr hnames]

/-! ## What a merged struct holds -/

/-- The fields of a struct merged from these branches: its names increase; of every key the first
    part that has it counts, with parts visited from left to right and keys in the order of
    their bytes; and the keys are those of the schema and of all that it reaches. -/
structure MergedFields (doc : Document) (sch : Schema) (branches : List Schema) (name : String)
    (fields : List Field) : Prop where
  increasing : fields.Pairwise (·.name < ·.name)
  perm : fields.Perm ((kept (mergeParts doc sch branches)).map (Visit.field doc sch name))
  first : ∀ v ∈ taken (mergeParts doc sch branches),
    (mergeParts doc sch branches)[v.index]? = some (.schema v.part) ∧ (v.key, v.property) ∈ v.part.propertyList ∧
      ∀ i < v.index, ∀ part, (mergeParts doc sch branches)[i]? = some (.schema part) →
        v.key ∉ part.propertyList.keys
  inOrder : (∀ part, .schema part ∈ mergeParts doc sch branches → KeyMap.Sorted part.propertyList) →
    (visits (mergeParts doc sch branches)).Pairwise (Visit.InOrder (· < ·))
  keys : ∀ key, key ∈ (taken (mergeParts doc sch branches)).map (·.key) ↔
    key ∈ sch.propertyList.keys ∨ ∃ t, Reached doc branches t ∧ key ∈ t.propertyList.keys

/-- No part before the one that a key was taken from has the key. -/
theorem first_of_mem_taken (h : v ∈ taken parts) :
    parts[v.index]? = some (.schema v.part) ∧ (v.key, v.property) ∈ v.part.propertyList ∧
      ∀ i < v.index, ∀ part, parts[i]? = some (.schema part) → v.key ∉ part.propertyList.keys := by
  obtain ⟨front, back, hvisits, hfront⟩ := exists_split_of_mem_firstByKeyFrom h
  have hv : v ∈ visitsFrom 0 parts := by
    rw [← visits, hvisits]
    simp
  obtain ⟨i, hi, hpart, hmem⟩ := mem_visitsFrom.mp hv
  rw [show v.index = i by omega]
  refine ⟨hpart, hmem, fun j hj part hpartj hkey => ?_⟩
  obtain ⟨e, he, hkey⟩ := List.mem_map.mp hkey
  -- That part would have been visited for the key before.
  have hw : ⟨j, part, e.1, e.2⟩ ∈ visits parts := mem_visitsFrom.mpr ⟨j, by simp, hpartj, he⟩
  have horder : (visits parts).Pairwise (Visit.InOrder fun _ _ => True) :=
    visitsFrom_inOrder fun part _ => List.pairwise_of_forall fun _ _ => trivial
  rw [hvisits] at hw horder
  obtain ⟨-, hback, -⟩ := List.pairwise_append.mp horder
  rcases List.mem_append.mp hw with hw | hw
  · exact hfront _ hw hkey
  · rcases List.mem_cons.mp hw with heq | hw
    · have := congrArg Visit.index heq
      simp only at this
      omega
    · have := (List.pairwise_cons.mp hback).1 _ hw
      simp only [Visit.InOrder, and_true] at this
      omega

theorem mem_keys_taken {key : String} :
    key ∈ (taken parts).map (·.key) ↔ ∃ part, .schema part ∈ parts ∧ key ∈ part.propertyList.keys := by
  rw [taken, firstByKey, mem_keys_firstByKeyFrom, List.mem_map]
  constructor
  · rintro ⟨-, v, hv, rfl⟩
    obtain ⟨i, -, hpart, hmem⟩ := mem_visitsFrom.mp hv
    exact ⟨v.part, List.mem_of_getElem? hpart, List.mem_map_of_mem hmem⟩
  · rintro ⟨part, hpart, hkey⟩
    obtain ⟨i, hi⟩ := List.mem_iff_getElem?.mp hpart
    obtain ⟨e, he, rfl⟩ := List.mem_map.mp hkey
    exact ⟨List.not_mem_nil, ⟨i, part, e.1, e.2⟩, mem_visitsFrom.mpr ⟨i, by simp, hi, he⟩, rfl⟩

theorem mergedFields_sortedFields {fuel : Nat} {sch : Schema} {branches : List Schema} {name : String}
    {s s' : Session} {fields : List Field} {ds : List Declaration}
    (h : Resolve.Runs (Resolve.partFields (Resolve.resolveAt doc fuel) sch name 1 [] (mergeParts doc sch branches)) s
      (fields, ds) s') : MergedFields doc sch branches name (Resolve.sortedFields fields) where
  increasing := sortedFields_increasing fields
  perm := by
    have hfirst : firstByKeyFrom (·.name) [] fields =
        (firstByKeyFrom (fun v => Name.identifier v.key) [] (visitsFrom 0 (mergeParts doc sch branches))).map
          (Visit.field doc sch name) := runs_partFields (by simp) h
    have hkept : kept (mergeParts doc sch branches) =
        firstByKeyFrom (fun v => Name.identifier v.key) [] (visitsFrom 0 (mergeParts doc sch branches)) :=
      firstByKeyFrom_firstByKeyFrom Name.identifier (by simp)
    rw [hkept, ← hfirst]
    exact sortedFields_perm fields
  first := fun v => first_of_mem_taken
  inOrder := visitsFrom_inOrder
  keys := fun key => mem_keys_taken.trans exists_part_iff

open Resolve in
/-- A merge under a fresh name declares a struct of the properties that it reaches. -/
theorem mergeAllOf_fields {fuel : Nat} {sch : Schema} {branches : List Schema} {name : String} {s s' : Session}
    {r : Resolution} (hfresh : name ∉ s.registry.keys)
    (h : Runs (mergeAllOf doc (resolveAt doc fuel) sch branches name) s r s') :
    ∃ fields nested, r = ⟨.named name, .type ⟨name, .struct fields, sch.documentation, false⟩ :: nested⟩ ∧
      MergedFields doc sch branches name fields := by
  rcases runs_declaring h with ⟨d, nested, t, -, hbuild, rfl, -⟩ | ⟨htaken, -⟩
  · simp only [runs_bind, runs_pure, Prod.mk.injEq] at hbuild
    obtain ⟨⟨fields, _⟩, t, hfields, ⟨rfl, rfl⟩, rfl⟩ := hbuild
    exact ⟨sortedFields fields, _, rfl, mergedFields_sortedFields hfields⟩
  · exact absurd htaken.mem_keys hfresh

/-! ## A component that merges itself -/

def typed (type : String) : Schema := { Schema.blank with type := some (.single type) }

/-- A reference to the component itself, and two branches with a property of one key. -/
def node : Schema :=
  { Schema.blank with
    allOf := some [{ Schema.blank with reference := some "#/components/schemas/Node" },
      { Schema.blank with properties := some [("id", typed "string"), ("name", typed "string")] },
      { Schema.blank with properties := some [("id", typed "integer")] }] }

def nodes : Document :=
  { openapi := "3.0.0", info := ⟨"t", "1", none⟩, servers := [], tags := [], paths := []
    components := ⟨[("Node", node)], [], [], []⟩ }

/-- What the component declares: `id` is the text of the branch that has it first. -/
def nodeStruct : TypeDecl :=
  ⟨"Node", .struct [⟨"Id", .scalar .string, true, "id", none⟩, ⟨"Name", .scalar .string, true, "name", none⟩], none,
    false⟩

open Resolve in
theorem node_runs : ∃ s', Runs (mergeAllOf nodes (resolveAt nodes 1) node (node.allOf.getD []) "Node") .start
    ⟨.named "Node", [.type nodeStruct]⟩ s' := by
  apply exists_runs_of_answers
  cbv

open Resolve in
theorem mergeAllOf_fields_node :
    "Node" ∉ Session.start.registry.keys ∧
      ∃ s', Runs (mergeAllOf nodes (resolveAt nodes 1) node (node.allOf.getD []) "Node") .start
          ⟨.named "Node", [.type nodeStruct]⟩ s' ∧
        ∃ fields nested, Resolution.mk (.named "Node") [.type nodeStruct] =
            ⟨.named "Node", .type ⟨"Node", .struct fields, node.documentation, false⟩ :: nested⟩ ∧
          MergedFields nodes node (node.allOf.getD []) "Node" fields := by
  have hfresh : "Node" ∉ Session.start.registry.keys := List.not_mem_nil
  obtain ⟨s', h⟩ := node_runs
  exact ⟨hfresh, s', h, mergeAllOf_fields hfresh h⟩

/-- In a document that is read the keys of every part are in order, so a component is merged with its
    parts from left to right and the keys of a part in the order of their bytes. -/
theorem visits_inOrder_of_text {text : String} {hint : Option String} (hread : Document.ofText text hint = .ok doc)
    {key : String} {sch : Schema} (hcomponent : (key, sch) ∈ doc.components.schemas) {branches : List Schema}
    (hbranches : sch.allOf = some branches) :
    (visits (mergeParts doc sch branches)).Pairwise (Visit.InOrder (· < ·)) := by
  have hcomponents := (Document.ofText_sorted hread).components
  exact visitsFrom_inOrder fun _ hpart =>
    mergeParts_sorted hcomponents (hcomponents.properties _ hcomponent) hbranches hpart

end ClientGen
