import ClientGen.Proofs.Path.Parameter
import ClientGen.Proofs.Source.Calls

/-
  ClientGen.Proofs.Parameters.Arguments — the arguments of a method and the placeholders of its path.

  The arguments have the names that the parts of the path have, each once (`names_pathArguments`).
  A Go method writes the list of its arguments and the expression of its path apart. Still the
  expression passes every argument to `pathParam` under the identifier with which it is declared
  (`passed_declared`), and the argument has the type of the parameter that is named like its first
  placeholder, or else it is text (`arguments_of_mapOperation`).
-/

namespace ClientGen

variable {doc : Document} {operationId : String} {ps : List ParameterSpec}

/-! ## Names -/

/-- The names of the arguments, without those that were there before. -/
theorem names_pathArguments (t : PathTemplate) :
    (pathArguments doc operationId ps [] t.placeholders).1.map (·.name) = t.parameters.eraseDups := by
  rw [names_pathArgumentsFrom, t.parameters_eq, ← firstByKey_id_eq_eraseDups]
  rfl

/-! ## Identifiers -/

namespace Go

/-- Behind the context, a method is declared with its path parameters first. -/
theorem getElem?_arguments {x : Method} {i : Nat} {a : Argument} (h : x.pathParams[i]? = some a) :
    (arguments x)[i]? = some (argumentName a.name, typeName a.type) := by
  obtain ⟨hi, -⟩ := List.getElem?_eq_some_iff.mp h
  unfold arguments
  rw [List.append_assoc, List.getElem?_append_left (by simpa using hi), List.getElem?_map, h]
  rfl

/-- The method is declared with the path parameter of this name under that identifier. -/
def Declares (x : Method) (name identifier : String) : Prop :=
  ∃ (i : Nat) (a : Argument), x.pathParams[i]? = some a ∧ a.name = name ∧
    (arguments x)[i]? = some (identifier, typeName a.type)

/-- What the path of a method passes on are the identifiers of its arguments. -/
theorem passed_declared {x : Method} (hnames : ∀ name ∈ x.path.parameters, ∃ a ∈ x.pathParams, a.name = name)
    (model : ApiModel) :
    List.Forall₂ (Declares x) x.path.parameters (Source.passedTo "pathParam" (method model x).path) := by
  have hpassed : Source.passedTo "pathParam" (method model x).path = x.path.parameters.map argumentName :=
    passedTo_pathExpression x.path
  rw [hpassed, List.forall₂_map_right_iff, List.forall₂_same]
  intro name hname
  obtain ⟨a, ha, rfl⟩ := hnames name hname
  obtain ⟨i, hi⟩ := List.getElem?_of_mem ha
  exact ⟨i, a, hi, rfl, getElem?_arguments hi⟩

end Go

/-! ## Mapped operations -/

open Resolve

/-- The path parameters of a mapped operation fit its path, in the model and in the Go method. -/
theorem arguments_of_mapOperation {fuel : Nat} {httpMethod : HttpMethod} {path : String} {op : Operation}
    {ofPath : List (RefOr ParameterSpec)} {s s' : Session} {m : MappedOperation}
    (h : Runs (mapOperation doc fuel httpMethod path op ofPath) s m s') (model : ApiModel) :
    m.method.pathParams.map (·.name) = m.method.path.parameters.eraseDups ∧
    List.Forall₂ (Go.Declares m.method) m.method.path.parameters
      (Source.passedTo "pathParam" (Go.method model m.method).path) ∧
    ∀ a ∈ m.method.pathParams, ∃ placeholder,
      m.method.path.placeholders.find? (Name.camel · == a.name) = some placeholder ∧
      (∀ p ∈ parametersOf doc httpMethod path op ofPath, p.location = .path → p.name = placeholder →
        a.type = (p.type doc a.name).1) ∧
      ((∀ p ∈ parametersOf doc httpMethod path op ofPath, p.location = .path → p.name ≠ placeholder) →
        a.type = .string) := by
  obtain ⟨_, _, _, _, -, -, -, -, hparams, -, -, -, -, htemplate⟩ := runs_mapOperation h
  have hnames : m.method.pathParams.map (·.name) = m.method.path.parameters.eraseDups := by
    rw [hparams, htemplate, names_pathArguments]
  refine ⟨hnames, Go.passed_declared ?_ model, ?_⟩
  · intro name hname
    have hmem : name ∈ m.method.pathParams.map (·.name) := hnames ▸ List.mem_eraseDups.mpr hname
    exact List.mem_map.mp hmem
  · intro a ha
    rw [hparams] at ha
    obtain ⟨-, placeholder, hfirst, htype⟩ := mem_pathArguments.mp ha
    refine ⟨placeholder, by rwa [htemplate], ?_, ?_⟩
    · rintro p hp hlocation rfl
      rw [htype, placeholderType_of_mem hp hlocation]
    · intro hnone
      rw [htype, placeholderType_of_none hnone]

/-- Two placeholders with one camel form, a text that looks like a call, and a keyword. -/
def repeatedPath : String := "/users/\x7buser_id\x7d/pathParam(x)/\x7buserId\x7d/\x7btype\x7d"

def repeated : Operation :=
  ⟨[], none, none, some "f", [.item (pathParameter "userId"),
    .item ⟨"user_id", .path, true, none, some { Schema.blank with type := some (.single "boolean") }⟩], none, [], false, []⟩

def plainModel : ApiModel := ⟨"p", "S", "t", "1", none, [], [], []⟩

theorem arguments_of_repeated :
    ∃ m s', Runs (mapOperation emptyDocument 1 .get repeatedPath repeated []) .start m s' ∧
      m.method.path.parameters = ["userId", "userId", "type"] ∧
      m.method.pathParams = [⟨"userId", .scalar .boolean⟩, ⟨"type", .string⟩] ∧
      Source.passedTo "pathParam" (Go.method plainModel m.method).path = ["userId", "userId", "type_"] ∧
      m.method.pathParams.map (·.name) = m.method.path.parameters.eraseDups := by
  have hpasses : passes (mapOperation emptyDocument 1 .get repeatedPath repeated []) .start (fun m _ =>
      decide (m.method.path.parameters = ["userId", "userId", "type"] ∧
        m.method.pathParams = [⟨"userId", .scalar .boolean⟩, ⟨"type", .string⟩] ∧
        Source.passedTo "pathParam" (Go.method plainModel m.method).path =
          ["userId", "userId", "type_"])) = true := by decide +kernel
  obtain ⟨m, s', h, htest⟩ := exists_runs_of_passes hpasses
  obtain ⟨hparameters, hparams, hpassed⟩ := of_decide_eq_true htest
  exact ⟨m, s', h, hparameters, hparams, hpassed, (arguments_of_mapOperation h plainModel).1⟩

end ClientGen
