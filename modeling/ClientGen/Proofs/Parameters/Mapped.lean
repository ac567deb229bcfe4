import ClientGen.Proofs.Parameters.Merged
import ClientGen.Proofs.Run.Operation

/-
  ClientGen.Proofs.Parameters.Mapped — what becomes of the parameters of an operation.

  - No two merged parameters have one place, so looking for a parameter of the path by its name
    finds it (`find?_parametersOf`).
  - The arguments are named by the camel forms of the placeholders, each once
    (`names_pathArgumentsFrom`) and typed by the first placeholder of that form
    (`mem_pathArguments`).
  - There is a field for every query parameter, and what is left out is reported, beside the
    parameters of the path (`queryFields_eq`).
-/

namespace ClientGen

variable {doc : Document} {operationId operationName : String} {ps : List ParameterSpec}

/-! ## Types -/

theorem find?_parametersOf {httpMethod : HttpMethod} {path : String} {op : Operation}
    {ofPath : List (RefOr ParameterSpec)} {p : ParameterSpec}
    (hp : p ∈ Resolve.parametersOf doc httpMethod path op ofPath) (hlocation : p.location = .path) :
    (Resolve.parametersOf doc httpMethod path op ofPath).find? (fun q => q.location == .path && q.name == p.name) =
      some p := by
  have hplace : (fun q : ParameterSpec => q.location == .path && q.name == p.name) = p.samePlace := by
    funext q
    rw [ParameterSpec.samePlace, hlocation, Bool.and_comm, BEq.comm, BEq.comm (a := q.location)]
  have hdistinct : (Resolve.parametersOf doc httpMethod path op ofPath).Pairwise (·.place ≠ ·.place) := by
    rw [Resolve.parametersOf, mergeParameters_eq]
    exact pairwise_firstByKeyFrom
  rw [hplace]
  refine ParameterSpec.find?_of_mem_firstByKey ?_ rfl
  rwa [firstByKey, firstByKeyFrom_of_distinct hdistinct fun _ _ => List.not_mem_nil]

theorem placeholderType_of_mem {httpMethod : HttpMethod} {path : String} {op : Operation}
    {ofPath : List (RefOr ParameterSpec)} {p : ParameterSpec}
    (hp : p ∈ Resolve.parametersOf doc httpMethod path op ofPath) (hlocation : p.location = .path) (argument : String) :
    (placeholderType doc operationId (Resolve.parametersOf doc httpMethod path op ofPath) p.name argument).1 =
      (p.type doc argument).1 := by
  rw [placeholderType, find?_parametersOf hp hlocation]

theorem placeholderType_of_none {placeholder : String} (h : ∀ p ∈ ps, p.location = .path → p.name ≠ placeholder)
    (argument : String) : (placeholderType doc operationId ps placeholder argument).1 = .string := by
  have hnone : ps.find? (fun p => p.location == .path && p.name == placeholder) = none :=
    List.find?_eq_none.mpr fun p hp => by simpa using h p hp
  rw [placeholderType, hnone]

/-! ## Arguments -/

theorem names_pathArgumentsFrom (taken placeholders : List String) :
    (pathArguments doc operationId ps taken placeholders).1.map (·.name) =
      firstByKeyFrom id taken (placeholders.map Name.camel) := by
  induction placeholders generalizing taken with
  | nil => rfl
  | cons placeholder rest ih =>
    simp only [pathArguments, List.map_cons, firstByKeyFrom, id_eq]
    split
    · exact ih taken
    · rw [List.map_cons, ih]

/-- The arguments are those of the camel forms, each with the type of its first placeholder. -/
theorem mem_pathArguments {ps : List ParameterSpec} {taken placeholders : List String} {a : Argument} :
    a ∈ (pathArguments doc operationId ps taken placeholders).1 ↔
      a.name ∉ taken ∧ ∃ q, placeholders.find? (Name.camel · == a.name) = some q ∧
        a.type = (placeholderType doc operationId ps q a.name).1 := by
  induction placeholders generalizing taken with
  | nil => simp [pathArguments]
  | cons placeholder rest ih =>
    simp only [pathArguments, List.contains_iff_mem]
    split
    · rename_i htaken
      refine ih.trans (and_congr_right fun hfree => ?_)
      have hname : Name.camel placeholder ≠ a.name := fun he => hfree (he ▸ htaken)
      rw [List.find?_cons_of_neg (by simpa using hname)]
    · rename_i htaken
      by_cases hname : Name.camel placeholder = a.name
      · rw [List.mem_cons, ih, List.find?_cons_of_pos (by simpa using hname)]
        obtain ⟨name, type⟩ := a
        obtain rfl : Name.camel placeholder = name := hname
        simp [htaken]
      · have hne : a ≠ ⟨Name.camel placeholder,
            (placeholderType doc operationId ps placeholder (Name.camel placeholder)).1⟩ :=
          fun he => hname (congrArg Argument.name he).symm
        rw [List.mem_cons, ih, List.find?_cons_of_neg (by simpa using hname)]
        simp [hne, Ne.symm hname]

/-! ## Fields -/

namespace ParameterSpec

def isQuery (p : ParameterSpec) : Bool := p.location == .query

/-- The field of a query parameter. -/
def field (doc : Document) (operationName : String) (p : ParameterSpec) : Field :=
  ⟨Name.identifier p.name, (p.type doc (operationName ++ "Params." ++ Name.identifier p.name)).1, !p.required, p.name,
    Unicode.trimmed? p.description⟩

/-- What is reported of a parameter beside those of the path. -/
def fieldReports (doc : Document) (operationId operationName : String) (p : ParameterSpec) : List Diagnostic :=
  match p.location with
  | .path => []
  | .query => (p.type doc (operationName ++ "Params." ++ Name.identifier p.name)).2
  | .header | .cookie => [.unsupportedLocation operationId p.location.name p.name]

end ParameterSpec

theorem queryFields_eq (ps : List ParameterSpec) :
    queryFields doc operationId operationName ps =
      ((ps.filter (·.isQuery)).map (·.field doc operationName),
        ps.flatMap (·.fieldReports doc operationId operationName)) := by
  induction ps with
  | nil => rfl
  | cons p rest ih =>
    rw [queryFields, ih, List.flatMap_cons, ParameterSpec.fieldReports]
    cases hlocation : p.location with
    | path => rw [List.filter_cons_of_neg (by simp [ParameterSpec.isQuery, hlocation]), List.nil_append]
    | query => rw [List.filter_cons_of_pos (by simp [ParameterSpec.isQuery, hlocation])]; rfl
    | header => rw [List.filter_cons_of_neg (by simp [ParameterSpec.isQuery, hlocation])]; rfl
    | cookie => rw [List.filter_cons_of_neg (by simp [ParameterSpec.isQuery, hlocation])]; rfl

end ClientGen
