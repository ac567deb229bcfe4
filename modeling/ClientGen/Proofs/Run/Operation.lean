import ClientGen.Operation.Mapping
import ClientGen.Proofs.Run.Schema

/-
  ClientGen.Proofs.Run.Operation — what mapping an operation can do, function by function.

  A payload resolves its schema once and then either is that schema's declaration or declares
  an alias (`runs_declareNamed`). `runs_mapOperation` names the sessions between the parts of
  an operation: parameters, request body, responses.
-/

namespace ClientGen.Resolve

variable {doc : Document} {fuel : Nat} {s s' : Session}

/-! ## Components and payloads -/

/-- A component is resolved under its own name, or its name becomes an alias. -/
theorem runs_declareComponent {key : String} {sch : Schema} {ds : List Declaration}
    (h : Runs (declareComponent doc fuel key sch) s ds s') :
    (declaresItself sch.shape = true ∧
        ∃ r, Runs (resolveAt doc fuel sch (Name.identifier key) .component) s r s' ∧ ds = r.declarations) ∨
      (declaresItself sch.shape = false ∧ Name.identifier key ∉ s.registry.keys ∧
        ∃ r t, Runs (resolveAt doc fuel sch (Name.identifier key) .component)
            (claimed s (Name.identifier key) (some sch)) r t ∧
          ds = .type (.aliasOf (Name.identifier key) r.type sch.documentation) :: r.declarations ∧
          s' = recorded t (.type (.aliasOf (Name.identifier key) r.type sch.documentation))) ∨
      (declaresItself sch.shape = false ∧ Reclaimed (Name.identifier key) (some sch) s s' ∧ ds = []) := by
  simp only [declareComponent] at h
  split at h
  · simp only [runs_bind, runs_pure] at h
    obtain ⟨r, t, hr, rfl, rfl⟩ := h
    exact .inl ⟨‹_›, r, hr, rfl⟩
  · rename_i hself
    have hself : declaresItself sch.shape = false := by simpa using hself
    simp only [runs_bind] at h
    obtain ⟨fresh, t, hc, h⟩ := h
    rcases runs_claim hc with ⟨rfl, hn, rfl⟩ | ⟨rfl, htaken⟩
    · simp only [if_true, runs_bind, runs_finish, runs_pure] at h
      obtain ⟨r, t, hr, _, _, ⟨rfl, rfl⟩, rfl, rfl⟩ := h
      exact .inr (.inl ⟨hself, hn, r, t, hr, rfl, rfl⟩)
    · simp only [Bool.false_eq_true, if_false, runs_pure] at h
      obtain ⟨rfl, rfl⟩ := h
      exact .inr (.inr ⟨hself, htaken, rfl⟩)

/-- The name under which the schema of a payload is resolved. -/
def payloadName (sch : Schema) (name : String) : String :=
  if declaresItself sch.shape then name else name ++ "Items"

/-- How the schema of a payload is resolved. -/
def PayloadRuns (doc : Document) (fuel : Nat) (sch : Schema) (name : String) (s : Session) (r : Resolution)
    (t : Session) : Prop :=
  (∃ target, sch.shape = .reference target ∧ r = .of (referenceType doc target) ∧ t = s) ∨
    Runs (resolve doc fuel sch (payloadName sch name)) s r t

theorem runs_declareNamed {name : String} {sch : Schema} {ds : List Declaration}
    (h : Runs (declareNamed doc fuel name sch) s ds s') :
    ∃ r t, PayloadRuns doc fuel sch name s r t ∧
      ((r.type = .named name ∧ ds = r.declarations ∧ s' = t) ∨
        (r.type ≠ .named name ∧
          ∃ o, Runs (declareAlias name r.type sch.documentation) t o s' ∧ ds = o.toList ++ r.declarations)) := by
  have hrest {r : Resolution} {t : Session}
      (h : Runs (do if r.type = .named name then return r.declarations
                    let declared ← declareAlias name r.type sch.documentation
                    return declared.toList ++ r.declarations) t ds s') :
      (r.type = .named name ∧ ds = r.declarations ∧ s' = t) ∨
        (r.type ≠ .named name ∧
          ∃ o, Runs (declareAlias name r.type sch.documentation) t o s' ∧ ds = o.toList ++ r.declarations) := by
    split at h
    · simp only [runs_pure] at h
      exact .inl ⟨‹_›, h.1.symm, h.2.symm⟩
    · simp only [runs_bind, runs_pure] at h
      obtain ⟨o, _, ho, rfl, rfl⟩ := h
      exact .inr ⟨‹_›, o, ho, rfl⟩
  unfold declareNamed at h
  split at h
  · rename_i target hshape
    rw [runs_bind] at h
    obtain ⟨r, t, hr, h⟩ := h
    simp only [runs_pure] at hr
    exact ⟨r, t, .inl ⟨target, hshape, hr.1.symm, hr.2.symm⟩, hrest h⟩
  · split at h <;> rename_i hself <;> rw [runs_bind] at h <;> obtain ⟨r, t, hr, h⟩ := h
    · exact ⟨r, t, .inr (by rw [payloadName, if_pos hself]; exact hr), hrest h⟩
    · exact ⟨r, t, .inr (by rw [payloadName, if_neg hself]; exact hr), hrest h⟩

theorem runs_declareResponseComponent {key : String} {r : ResponseSpec} {ds : List Declaration}
    (h : Runs (declareResponseComponent doc fuel key r) s ds s') :
    (∃ sch, r.jsonSchema? = some sch ∧ Runs (declareNamed doc fuel (responseComponentName key) sch) s ds s') ∨
      ∃ repr o, (repr = .struct [] ∨ repr = .rawBytes) ∧
        Runs (declare (.type ⟨responseComponentName key, repr, Unicode.trimmed? r.description, false⟩)) s o s' ∧
        ds = o.toList := by
  simp only [declareResponseComponent] at h
  split at h
  · exact .inl ⟨_, ‹_›, h⟩
  · simp only [runs_bind, runs_pure] at h
    obtain ⟨o, _, ho, rfl, rfl⟩ := h
    refine .inr ⟨_, o, ?_, ho, rfl⟩
    split <;> simp

/-! ## Parts of an operation -/

/-- The schema of a JSON request body. -/
def bodySchema? (doc : Document) (op : Operation) : Option Schema :=
  (op.requestBody.bind doc.requestBody?).bind fun b => jsonSchemaOf? b.content

theorem runs_requestBody {operationName : String} {op : Operation} {ds : List Declaration} {body : Option Argument}
    (h : Runs (requestBody doc fuel operationName op) s (ds, body) s') :
    (bodySchema? doc op = none ∧ ds = [] ∧ body = none ∧ s' = s) ∨
      ∃ sch, bodySchema? doc op = some sch ∧
        Runs (declareNamed doc fuel (operationName ++ "Body") sch) s ds s' ∧
        body = some ⟨"body", .named (operationName ++ "Body")⟩ := by
  simp only [requestBody] at h
  split at h
  · simp only [runs_pure, Prod.mk.injEq] at h
    obtain ⟨⟨rfl, rfl⟩, rfl⟩ := h
    exact .inl ⟨‹_›, rfl, rfl, rfl⟩
  · simp only [runs_bind, runs_pure, Prod.mk.injEq] at h
    obtain ⟨ds, _, hd, ⟨rfl, rfl⟩, rfl⟩ := h
    exact .inr ⟨_, ‹_›, hd, rfl⟩

/-- The four kinds of responses: by reference, without a schema, with a schema that is a
    reference, and with one that is declared. -/
theorem runs_responseType {operationName key : String} {r : RefOr ResponseSpec} {type : Option TypeRef}
    {ds : List Declaration} (h : Runs (responseType doc fuel operationName key r) s (type, ds) s') :
    (∃ target, r = .ref target ∧ type = some (.named (responseComponentName (Name.lastSegment target))) ∧ ds = [] ∧
        s' = s) ∨
      (∃ spec, r = .item spec ∧ spec.jsonSchema? = none ∧ type = none ∧ ds = [] ∧ s' = s) ∨
      (∃ spec sch target, r = .item spec ∧ spec.jsonSchema? = some sch ∧ sch.shape = .reference target ∧
        type = some (referenceType doc target) ∧ ds = [] ∧ s' = s) ∨
      ∃ spec sch, r = .item spec ∧ spec.jsonSchema? = some sch ∧
        type = some (.named (inlineResponseName operationName key sch)) ∧
        Runs (declareNamed doc fuel (inlineResponseName operationName key sch) sch) s ds s' := by
  unfold responseType at h
  split at h
  · simp only [runs_pure, Prod.mk.injEq] at h
    obtain ⟨⟨rfl, rfl⟩, rfl⟩ := h
    exact .inl ⟨_, rfl, rfl, rfl, rfl⟩
  · split at h
    · simp only [runs_pure, Prod.mk.injEq] at h
      obtain ⟨⟨rfl, rfl⟩, rfl⟩ := h
      exact .inr (.inl ⟨_, rfl, ‹_›, rfl, rfl, rfl⟩)
    · split at h
      · simp only [runs_pure, Prod.mk.injEq] at h
        obtain ⟨⟨rfl, rfl⟩, rfl⟩ := h
        exact .inr (.inr (.inl ⟨_, _, _, rfl, ‹_›, ‹_›, rfl, rfl, rfl⟩))
      · simp only [runs_bind, runs_pure, Prod.mk.injEq] at h
        obtain ⟨ds, _, hd, ⟨rfl, rfl⟩, rfl⟩ := h
        exact .inr (.inr (.inr ⟨_, _, rfl, ‹_›, rfl, hd⟩))

/-- The response of a key, as its status and type decide it. -/
theorem runs_response {operationId operationName key : String} {r : RefOr ResponseSpec} {m : MappedResponse}
    {ds : List Declaration} (h : Runs (response doc fuel operationId operationName key r) s (m, ds) s') :
    ∃ status, Status.parse? key = some status ∧
      Runs (responseType doc fuel operationName key r) s (m.response.type, ds) s' ∧
      m.response.status = status ∧ m.response.sortKey = status.sortKey ∧
      m.response.isDefault = (status == .default) ∧ m.response.isError = (key.toList.head? != some '2') ∧
      m.response.isUnexpected = false ∧ m.hasJson = ((doc.response? r).bind (·.jsonSchema?)).isSome := by
  simp only [response] at h
  split at h
  · cases h
  · rename_i status hk
    simp only [runs_bind, runs_pure, Prod.mk.injEq] at h
    obtain ⟨⟨type, ds⟩, _, ht, ⟨rfl, rfl⟩, rfl⟩ := h
    exact ⟨status, hk, ht, rfl, rfl, rfl, rfl, rfl, rfl⟩

theorem runs_responses_cons {operationId operationName key : String} {r : RefOr ResponseSpec}
    {rest : List (String × RefOr ResponseSpec)} {ms : List MappedResponse} {ds : List Declaration}
    (h : Runs (responses doc fuel operationId operationName ((key, r) :: rest)) s (ms, ds) s') :
    ∃ m own t more moreDs, Runs (response doc fuel operationId operationName key r) s (m, own) t ∧
      Runs (responses doc fuel operationId operationName rest) t (more, moreDs) s' ∧ ms = m :: more ∧
      ds = own ++ moreDs := by
  simp only [responses, runs_bind, runs_pure, Prod.mk.injEq] at h
  obtain ⟨⟨m, own⟩, t, hr, ⟨more, moreDs⟩, _, hrest, ⟨rfl, rfl⟩, rfl⟩ := h
  exact ⟨m, own, t, more, moreDs, hr, hrest, rfl, rfl⟩

/-- Without query parameters nothing happens; otherwise the params struct is declared, with its
    encoder if the name was free. -/
theorem runs_queryParams {operationId operationName : String} {parameters : List ParameterSpec}
    {ds : List Declaration} {query : Option Argument}
    (h : Runs (queryParams doc operationId operationName parameters) s (ds, query) s') :
    (ds = [] ∧ query = none ∧ s'.registry = s.registry) ∨
      ∃ t o, t.registry = s.registry ∧ query = some ⟨"params", .named (operationName ++ "Params")⟩ ∧
        Runs (declare (.type ⟨operationName ++ "Params",
          .struct (sortedFields (queryFields doc operationId operationName parameters).1),
          some ("Query parameters for " ++ operationName ++ "."), false⟩)) t o s' ∧
        ds = match o with
          | some d => [d, .queryEncoder (.ofFields s.registry (operationName ++ "Params")
              (sortedFields (queryFields doc operationId operationName parameters).1))]
          | none => [] := by
  simp only [queryParams, runs_bind, runs_reportAll] at h
  obtain ⟨_, t, rfl, h⟩ := h
  split at h
  · simp only [runs_pure, Prod.mk.injEq] at h
    obtain ⟨⟨rfl, rfl⟩, rfl⟩ := h
    exact .inl ⟨rfl, rfl, rfl⟩
  · simp only [runs_bind, runs_get, runs_pure, Prod.mk.injEq] at h
    obtain ⟨_, _, ⟨rfl, rfl⟩, o, _, ho, ⟨rfl, rfl⟩, rfl⟩ := h
    refine .inr ⟨_, o, ?_, rfl, ho, rfl⟩
    rfl

/-! ## An operation -/

/-- The parameters of an operation with those of its path. -/
def parametersOf (doc : Document) (httpMethod : HttpMethod) (path : String) (op : Operation)
    (ofPath : List (RefOr ParameterSpec)) : List ParameterSpec :=
  (mergeParameters doc (op.idOr httpMethod path) op.parameters ofPath).1

theorem runs_mapOperation {httpMethod : HttpMethod} {path : String} {op : Operation}
    {ofPath : List (RefOr ParameterSpec)} {m : MappedOperation}
    (h : Runs (mapOperation doc fuel httpMethod path op ofPath) s m s') :
    ∃ t t1 t2 mapped, t.registry = s.registry ∧
      Runs (queryParams doc (op.idOr httpMethod path) (Name.proper (op.idOr httpMethod path))
        (parametersOf doc httpMethod path op ofPath)) t (m.paramTypes, m.method.queryParams) t1 ∧
      Runs (requestBody doc fuel (Name.proper (op.idOr httpMethod path)) op) t1 (m.bodyTypes, m.method.body) t2 ∧
      Runs (responses doc fuel (op.idOr httpMethod path) (Name.proper (op.idOr httpMethod path)) op.responses) t2
        (mapped, m.responseTypes) s' ∧
      m.method.pathParams = (pathArguments doc (op.idOr httpMethod path)
        (parametersOf doc httpMethod path op ofPath) [] (PathTemplate.ofPath path).placeholders).1 ∧
      m.method.responses = (MappedResponse.arrange mapped).map (·.response) ∧
      m.method.responseType = MappedResponse.resultType? (MappedResponse.arrange mapped) ∧
      m.responseRefs = responseRefsOf op.responses ∧ m.errorTypes = errorTypesOf m.method.responses ∧
      m.method.path = PathTemplate.ofPath path := by
  simp only [mapOperation, runs_bind, runs_reportAll, runs_pure] at h
  obtain ⟨_, _, rfl, _, _, rfl, ⟨_, _⟩, t1, hq, ⟨_, _⟩, t2, hb, ⟨mapped, _⟩, _, hr, rfl, rfl⟩ := h
  refine ⟨_, t1, t2, mapped, ?_, hq, hb, hr, rfl, rfl, rfl, rfl, rfl, rfl⟩
  rfl

/-- The extension of an operation names its method, or else the id does. -/
theorem name_of_mapOperation {httpMethod : HttpMethod} {path : String} {op : Operation}
    {ofPath : List (RefOr ParameterSpec)} {m : MappedOperation}
    (h : Runs (mapOperation doc fuel httpMethod path op ofPath) s m s') :
    m.method.name = op.methodNameOverride?.getD (Name.proper (op.idOr httpMethod path)) := by
  simp only [mapOperation, runs_bind, runs_reportAll, runs_pure] at h
  obtain ⟨_, _, rfl, _, _, rfl, ⟨_, _⟩, _, _, ⟨_, _⟩, _, _, ⟨_, _⟩, _, _, rfl, rfl⟩ := h
  rfl

end ClientGen.Resolve
