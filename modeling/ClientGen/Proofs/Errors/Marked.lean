import Mathlib
import ClientGen.Proofs.Errors.Propagation
import ClientGen.Proofs.Grouping.Methods
import ClientGen.Proofs.Names.Given

/-
  ClientGen.Proofs.Errors.Marked — which declarations of a model are errors.

  Before errors are marked nothing is one (`Phases.unmarked`). The roots of the marking are the
  declared names of error responses (`mem_errorTypes_iff`), and its edges the aliases of the model
  for named types, one for each name (`standsFor_iff`). So a declaration is an error exactly when
  it is a type or a sum type and its name is reached from a root along aliases, and every order in
  which names are looked up marks the same (`build_marks`).
-/

namespace ClientGen

namespace Declaration

/-- Only types and sum types can be errors. -/
def canFail : Declaration → Bool
  | .type _ => true
  | .enumeration _ => false
  | .sum _ => true
  | .queryEncoder _ => false

@[simp] theorem isError_markError (d : Declaration) : d.markError.isError = d.canFail := by cases d <;> rfl

@[simp] theorem canFail_markError (d : Declaration) : d.markError.canFail = d.canFail := by cases d <;> rfl

@[simp] theorem aliasOfNamed?_markError (d : Declaration) : d.markError.aliasOfNamed? = d.aliasOfNamed? := by
  cases d with
  | type d =>
    obtain ⟨name, repr, documentation, isError⟩ := d
    cases repr with
    | aliasOf target => cases target <;> rfl
    | _ => rfl
  | _ => rfl

theorem of_aliasOfNamed? {d : Declaration} {name target : String} (h : d.aliasOfNamed? = some (name, target)) :
    d.isEncoder = false ∧ d.name = name := by
  unfold aliasOfNamed? at h
  split at h
  · cases h
    exact ⟨rfl, rfl⟩
  · cases h

end Declaration

namespace ApiModel

/-- The declared name of the type of an error response. -/
def ErrorRoot (m : ApiModel) (name : String) : Prop :=
  ∃ method ∈ m.methods, ∃ r ∈ method.responses, r.isError = true ∧ r.type.bind TypeRef.declaredName? = some name

/-- A declaration of the model that is an alias of a named type. -/
def AliasEdge (m : ApiModel) (name target : String) : Prop :=
  ∃ d ∈ m.declarations, d.aliasOfNamed? = some (name, target)

/-- The errors of a model are what its error responses lead to. -/
structure ErrorsMarked (m : ApiModel) : Prop where
  isError_iff : ∀ d ∈ m.declarations, d.isError = true ↔
    d.canFail = true ∧ ∃ root, m.ErrorRoot root ∧ Relation.ReflTransGen m.AliasEdge root d.name
  /-- Following aliases ends. -/
  ends : WellFounded fun after before => Marking.Step (namedAliases m.declarations) before after
  goes_on : ∀ marking : Marking, marking.pending ≠ [] →
    ∃ after, Marking.Step (namedAliases m.declarations) marking after
  /-- Whatever names are taken first, the same declarations are marked. -/
  any_order : ∀ order marking, (∀ name, name ∈ order ↔ m.ErrorRoot name) →
    Marking.Run (namedAliases m.declarations) ⟨order, order⟩ marking → marking.pending = [] →
    ∀ d ∈ m.declarations, d.isError = true ↔ d.canFail = true ∧ d.name ∈ marking.marked

end ApiModel

/-! ## Aliases -/

/-- Aliases of named types are declared under their names. -/
theorem aliasNames_sublist (ds : List Declaration) :
    (KeyMap.keys (ds.filterMap Declaration.aliasOfNamed?)).Sublist (declaredNames ds) := by
  induction ds with
  | nil => exact .slnil
  | cons d rest ih =>
    cases halias : d.aliasOfNamed? with
    | none =>
      rw [List.filterMap_cons_none halias]
      refine ih.trans ?_
      rw [show d :: rest = [d] ++ rest from rfl, declaredNames_append]
      exact List.sublist_append_right _ _
    | some edge =>
      obtain ⟨name, target⟩ := edge
      obtain ⟨hencoder, hname⟩ := Declaration.of_aliasOfNamed? halias
      rw [List.filterMap_cons_some halias, declaredNames_cons hencoder, hname]
      exact ih.cons_cons name

theorem standsFor_iff {m : ApiModel} (h : (declaredNames m.declarations).Nodup) {name target : String} :
    StandsFor (namedAliases m.declarations) name target ↔ m.AliasEdge name target := by
  rw [StandsFor, namedAliases, KeyMap.get?_ofList ((aliasNames_sublist _).nodup h), List.mem_filterMap]
  rfl

/-! ## Roots -/

theorem mem_errorTypesOf {responses : List Response} {name : String} :
    name ∈ errorTypesOf responses ↔
      ∃ r ∈ responses, r.isError = true ∧ r.type.bind TypeRef.declaredName? = some name := by
  simp only [errorTypesOf, List.mem_filterMap, List.mem_filter, and_assoc]

namespace Resolve

variable {doc : Document} {fuel : Nat} {s s' : Session}

theorem errorTypes_eq {e : Endpoint} {o : TaggedOperation} (h : MappedFrom doc fuel e o) :
    o.mapped.errorTypes = errorTypesOf o.mapped.method.responses := by
  obtain ⟨s, s', hruns⟩ := h.runs
  obtain ⟨-, -, -, -, -, -, -, -, -, -, -, -, herrors, -⟩ := runs_mapOperation hruns
  exact herrors

/-- The names that marking starts with are the error roots of the model. -/
theorem mem_errorTypes_iff (p : Phases doc fuel) {m : ApiModel}
    (hgroupings : m.groupings = p.sortedGroups.map fun g =>
      { g with declarations := markErrors p.errors g.declarations }) {name : String} :
    name ∈ p.operations.flatMap (·.mapped.errorTypes) ↔ m.ErrorRoot name := by
  have hmethods : m.methods.Perm (p.operations.map (·.mapped.method)) := by
    rw [ApiModel.methods, hgroupings, List.flatMap_map]
    exact p.methods_perm
  have herrors : ∀ o ∈ p.operations, o.mapped.errorTypes = errorTypesOf o.mapped.method.responses := by
    intro o ho
    obtain ⟨e, -, heo⟩ := exists_of_forall₂ p.mapping.endpoints ho
    exact errorTypes_eq heo
  constructor
  · intro hname
    obtain ⟨o, ho, hin⟩ := List.mem_flatMap.mp hname
    rw [herrors o ho] at hin
    exact ⟨o.mapped.method, hmethods.mem_iff.mpr (List.mem_map_of_mem ho), mem_errorTypesOf.mp hin⟩
  · rintro ⟨method, hmethod, hresponse⟩
    obtain ⟨o, ho, rfl⟩ := List.mem_map.mp (hmethods.mem_iff.mp hmethod)
    refine List.mem_flatMap.mpr ⟨o, ho, ?_⟩
    rw [herrors o ho]
    exact mem_errorTypesOf.mpr hresponse

/-! ## Marking -/

theorem namedAliases_markErrors (errors : List String) (ds : List Declaration) :
    namedAliases (markErrors errors ds) = namedAliases ds := by
  rw [namedAliases, namedAliases, markErrors, List.filterMap_map]
  refine congrArg KeyMap.ofList (List.filterMap_congr fun d _ => ?_)
  simp only [Function.comp_apply]
  split
  · exact d.aliasOfNamed?_markError
  · rfl

/-- Among declarations that were not errors before, those are errors that can be and are named. -/
theorem isError_of_mem_markErrors {errors : List String} {ds : List Declaration} (hds : ∀ d ∈ ds, d.isError = false)
    {d : Declaration} (h : d ∈ markErrors errors ds) : d.isError = true ↔ d.canFail = true ∧ d.name ∈ errors := by
  obtain ⟨made, hmade, rfl⟩ := List.mem_map.mp h
  by_cases hname : made.name ∈ errors
  · rw [if_pos (List.contains_iff_mem.mpr hname)]
    simp only [Declaration.isError_markError, Declaration.canFail_markError, name_markError, hname, and_true]
  · rw [if_neg fun hcontains => hname (List.contains_iff_mem.mp hcontains)]
    simp only [hds made hmade, hname, and_false, Bool.false_eq_true]

end Resolve

open Resolve in
/-- A build marks as errors the types and sum types that its error responses lead to, and no others. -/
theorem build_marks {doc : Document} {fuel : Nat} {config : Config} {model : ApiModel} {ds : List Diagnostic}
    (h : build fuel doc config = .ok (model, ds)) : model.ErrorsMarked := by
  obtain ⟨s', hrun, -⟩ := runs_of_build h
  have hnodup := (declaredNames_model hrun).2
  obtain ⟨p, -, hgroupings, hshared, -⟩ := runs_buildModel hrun
  have hdeclarations := p.marked hgroupings hshared
  have haliases : namedAliases (p.sortedGroups.flatMap (·.declarations) ++ p.shared) = namedAliases model.declarations := by
    rw [hdeclarations, namedAliases_markErrors]
  have hisError : ∀ d ∈ model.declarations, d.isError = true ↔ d.canFail = true ∧ d.name ∈ p.errors := by
    intro d hd
    exact isError_of_mem_markErrors (fun _ => p.unmarked) (hdeclarations ▸ hd)
  have hedges : StandsFor (namedAliases model.declarations) = model.AliasEdge := by
    funext name target
    exact propext (standsFor_iff hnodup)
  have hreached : ∀ name, name ∈ p.errors ↔
      ∃ root, model.ErrorRoot root ∧ Relation.ReflTransGen model.AliasEdge root name := by
    intro name
    have hroots : ∀ root, root ∈ p.operations.flatMap (·.mapped.errorTypes) ↔ model.ErrorRoot root :=
      fun _ => mem_errorTypes_iff p hgroupings
    rw [Phases.errors, haliases]
    simp only [mem_followErrors, hroots, hedges]
  constructor
  case isError_iff =>
    intro d hd
    rw [hisError d hd, hreached]
  case ends => exact Marking.wellFounded_step _
  case goes_on => exact fun marking => Marking.exists_step
  case any_order =>
    intro order marking horder hrun hdone d hd
    have htraced := (Marking.traced_start fun _ => Iff.rfl).run hrun
    rw [hisError d hd, hreached, htraced.mem_marked hdone, hedges]
    simp only [horder]

/-- An error response with a component that stands for itself by way of another, and a third
    component that nothing leads to. -/
def circularAliases : Document :=
  { openapi := "3.0.0", info := ⟨"t", "1", none⟩, servers := [], tags := []
    paths := [("/a", ⟨none, none, none, [(.get, ⟨[], none, none, some "f", [], none,
      [("400", .item ⟨none, [("application/json",
        ⟨some { Schema.blank with reference := some "#/components/schemas/A" }⟩)]⟩)], false, []⟩)], []⟩)]
    components :=
      ⟨[("A", { Schema.blank with reference := some "#/components/schemas/B" }),
        ("B", { Schema.blank with reference := some "#/components/schemas/A" }),
        ("C", { Schema.blank with reference := some "#/components/schemas/A" })], [], [], []⟩ }

theorem build_marks_circularAliases : ∃ model ds, build 4 circularAliases ⟨"p", "P"⟩ = .ok (model, ds) ∧
    model.declarations.map (fun d => (d.name, d.isError)) =
      [("A", true), ("B", true), ("Date", false), ("Time", false), ("C", false)] ∧ model.ErrorsMarked := by
  obtain ⟨model, ds, h, htest⟩ := @Resolve.exists_build_of_passes circularAliases 4 ⟨"p", "P"⟩
    (fun m _ => m.declarations.map (fun d => (d.name, d.isError)) =
      [("A", true), ("B", true), ("Date", false), ("Time", false), ("C", false)]) (by cbv)
  exact ⟨model, ds, h, of_decide_eq_true htest, build_marks h⟩

end ClientGen
