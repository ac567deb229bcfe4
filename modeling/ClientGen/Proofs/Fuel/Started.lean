import ClientGen.Proofs.Run.Build
import ClientGen.Proofs.Run.Operation

/-
  ClientGen.Proofs.Fuel.Started — the schemas that a build starts to resolve.

  They stand in the document: component schemas, and the JSON payloads of response components,
  request bodies and inline responses (`started`). A build runs out of fuel only inside one of
  them (`runsOut_buildModel`).
-/

namespace ClientGen.Resolve

variable {doc : Document} {fuel : Nat} {s s' : Session}

/-- The schemas of the payloads that an operation has inline. -/
def payloadSchemas (doc : Document) (op : Operation) : List Schema :=
  (bodySchema? doc op).toList ++ op.responses.filterMap fun e =>
    match e.2 with
    | .ref _ => none
    | .item spec => spec.jsonSchema?

/-- The schemas that a build starts to resolve, each at its position. -/
def started (doc : Document) : List (Schema × Position) :=
  doc.components.schemas.map (fun e => (e.2, .component)) ++
    (doc.components.responses.filterMap (·.2.jsonSchema?) ++
      doc.paths.flatMap fun e => e.2.operations.flatMap fun o => payloadSchemas doc o.2).map (·, .nested)

/-- Resolving `c` runs out of fuel in `s'`. -/
def OutAt (doc : Document) (fuel : Nat) (c : Schema × Position) (s' : Session) : Prop :=
  ∃ name t, RunsOut (resolveAt doc fuel c.1 name c.2) t s'

/-! ## Components and payloads -/

theorem runsOut_declareComponent {key : String} {sch : Schema} (h : RunsOut (declareComponent doc fuel key sch) s s') :
    OutAt doc fuel (sch, .component) s' := by
  simp only [declareComponent] at h
  split at h
  · simp only [runsOut_bind, not_runsOut_pure, and_false, exists_false, or_false] at h
    exact ⟨_, s, h⟩
  · simp only [runsOut_bind, not_runsOut_claim, false_or] at h
    obtain ⟨fresh, t, -, h⟩ := h
    cases fresh with
    | true =>
      simp only [if_true, runsOut_bind, not_runsOut_finish, not_runsOut_pure, and_false, exists_false, or_false] at h
      exact ⟨_, t, h⟩
    | false => simp at h

theorem runsOut_declareNamed {name : String} {sch : Schema} (h : RunsOut (declareNamed doc fuel name sch) s s') :
    OutAt doc fuel (sch, .nested) s' := by
  have hrest {r : Resolution} {t : Session} : ¬ RunsOut (do
      if r.type = .named name then return r.declarations
      let declared ← declareAlias name r.type sch.documentation
      return declared.toList ++ r.declarations) t s' := by
    intro h
    split at h
    · simp at h
    · simp [declareAlias] at h
  unfold declareNamed at h
  split at h
  · simp only [runsOut_bind, not_runsOut_pure, false_or] at h
    obtain ⟨r, t, -, h⟩ := h
    exact absurd h hrest
  · split at h <;> rw [runsOut_bind] at h <;> rcases h with h | ⟨r, t, -, h⟩
    · exact ⟨_, s, h⟩
    · exact absurd h hrest
    · exact ⟨_, s, h⟩
    · exact absurd h hrest

theorem runsOut_declareResponseComponent {key : String} {spec : ResponseSpec}
    (h : RunsOut (declareResponseComponent doc fuel key spec) s s') :
    ∃ sch, spec.jsonSchema? = some sch ∧ OutAt doc fuel (sch, .nested) s' := by
  simp only [declareResponseComponent] at h
  split at h
  · exact ⟨_, ‹_›, runsOut_declareNamed h⟩
  · simp at h

theorem runsOut_declareResponses {keys : List String} (h : RunsOut (declareResponses doc fuel keys) s s') :
    ∃ e ∈ doc.components.responses, ∃ sch, e.2.jsonSchema? = some sch ∧ OutAt doc fuel (sch, .nested) s' := by
  induction keys generalizing s with
  | nil => simp [declareResponses] at h
  | cons key rest ih =>
    simp only [declareResponses] at h
    split at h <;> simp only [runsOut_bind, not_runsOut_pure, and_false, exists_false, or_false, false_or] at h
    · rename_i spec hspec
      rcases h with h | ⟨_, t, -, h⟩
      · obtain ⟨sch, hsch, hout⟩ := runsOut_declareResponseComponent h
        exact ⟨(key, spec), KeyMap.mem_of_get? hspec, sch, hsch, hout⟩
      · exact ih h
    · obtain ⟨_, t, -, h⟩ := h
      exact ih h

/-! ## Operations -/

theorem runsOut_requestBody {operationName : String} {op : Operation}
    (h : RunsOut (requestBody doc fuel operationName op) s s') :
    ∃ sch, bodySchema? doc op = some sch ∧ OutAt doc fuel (sch, .nested) s' := by
  simp only [requestBody] at h
  split at h
  · simp at h
  · simp only [runsOut_bind, not_runsOut_pure, and_false, exists_false, or_false] at h
    exact ⟨_, ‹_›, runsOut_declareNamed h⟩

theorem runsOut_responseType {operationName key : String} {r : RefOr ResponseSpec}
    (h : RunsOut (responseType doc fuel operationName key r) s s') :
    ∃ spec sch, r = .item spec ∧ spec.jsonSchema? = some sch ∧ OutAt doc fuel (sch, .nested) s' := by
  unfold responseType at h
  split at h
  · simp at h
  · split at h
    · simp at h
    · split at h
      · simp at h
      · simp only [runsOut_bind, not_runsOut_pure, and_false, exists_false, or_false] at h
        exact ⟨_, _, rfl, ‹_›, runsOut_declareNamed h⟩

theorem runsOut_response {operationId operationName key : String} {r : RefOr ResponseSpec}
    (h : RunsOut (response doc fuel operationId operationName key r) s s') :
    ∃ spec sch, r = .item spec ∧ spec.jsonSchema? = some sch ∧ OutAt doc fuel (sch, .nested) s' := by
  simp only [response] at h
  split at h
  · cases h
  · simp only [runsOut_bind, not_runsOut_pure, and_false, exists_false, or_false] at h
    exact runsOut_responseType h

theorem runsOut_responses {operationId operationName : String} {rs : List (String × RefOr ResponseSpec)}
    (h : RunsOut (responses doc fuel operationId operationName rs) s s') :
    ∃ e ∈ rs, ∃ spec sch, e.2 = .item spec ∧ spec.jsonSchema? = some sch ∧ OutAt doc fuel (sch, .nested) s' := by
  induction rs generalizing s with
  | nil => simp [responses] at h
  | cons e rest ih =>
    simp only [responses, runsOut_bind, not_runsOut_pure, and_false, exists_false, or_false] at h
    rcases h with h | ⟨_, t, -, h⟩
    · exact ⟨e, List.mem_cons_self, runsOut_response h⟩
    · obtain ⟨e', he', hout⟩ := ih h
      exact ⟨e', List.mem_cons_of_mem e he', hout⟩

theorem not_runsOut_queryParams {operationId operationName : String} {parameters : List ParameterSpec} :
    ¬ RunsOut (queryParams doc operationId operationName parameters) s s' := by
  intro h
  simp only [queryParams, runsOut_bind, not_runsOut_reportAll, false_or] at h
  obtain ⟨_, t, -, h⟩ := h
  split at h <;> simp at h

theorem runsOut_mapOperation {httpMethod : HttpMethod} {path : String} {op : Operation}
    {ofPath : List (RefOr ParameterSpec)} (h : RunsOut (mapOperation doc fuel httpMethod path op ofPath) s s') :
    ∃ sch ∈ payloadSchemas doc op, OutAt doc fuel (sch, .nested) s' := by
  simp only [mapOperation, runsOut_bind, not_runsOut_reportAll, not_runsOut_queryParams, not_runsOut_pure, and_false,
    exists_false, or_false, false_or] at h
  obtain ⟨_, _, -, _, _, -, _, _, -, h⟩ := h
  rcases h with h | ⟨_, _, -, h⟩
  · obtain ⟨sch, hsch, hout⟩ := runsOut_requestBody h
    exact ⟨sch, List.mem_append_left _ (Option.mem_toList.mpr hsch), hout⟩
  · obtain ⟨e, he, spec, sch, hspec, hsch, hout⟩ := runsOut_responses h
    exact ⟨sch, List.mem_append_right _ (List.mem_filterMap.mpr ⟨e, he, by rw [hspec]; exact hsch⟩), hout⟩

theorem runsOut_mapPathOperations {path : String} {item : PathItem} {ops : List (HttpMethod × Operation)}
    (h : RunsOut (mapPathOperations doc fuel path item ops) s s') :
    ∃ o ∈ ops, ∃ sch ∈ payloadSchemas doc o.2, OutAt doc fuel (sch, .nested) s' := by
  induction ops generalizing s with
  | nil => simp [mapPathOperations] at h
  | cons o rest ih =>
    simp only [mapPathOperations, runsOut_bind, not_runsOut_pure, and_false, exists_false, or_false] at h
    rcases h with h | ⟨_, t, -, h⟩
    · exact ⟨o, List.mem_cons_self, runsOut_mapOperation h⟩
    · obtain ⟨o', ho', hout⟩ := ih h
      exact ⟨o', List.mem_cons_of_mem o ho', hout⟩

/-! ## The build -/

theorem runsOut_mapPaths {paths : KeyMap PathItem} (h : RunsOut (mapPaths doc fuel paths) s s') :
    ∃ e ∈ paths, ∃ o ∈ e.2.operations, ∃ sch ∈ payloadSchemas doc o.2, OutAt doc fuel (sch, .nested) s' := by
  induction paths generalizing s with
  | nil => simp [mapPaths] at h
  | cons e rest ih =>
    have hrest {t : Session} (h : RunsOut (mapPaths doc fuel rest) t s') :
        ∃ e' ∈ e :: rest, ∃ o ∈ e'.2.operations, ∃ sch ∈ payloadSchemas doc o.2,
          OutAt doc fuel (sch, .nested) s' := by
      obtain ⟨e', he', hout⟩ := ih h
      exact ⟨e', List.mem_cons_of_mem e he', hout⟩
    simp only [mapPaths] at h
    split at h <;> simp only [runsOut_bind, not_runsOut_report, not_runsOut_pure, and_false, exists_false, or_false,
      false_or] at h
    · obtain ⟨_, t, -, h⟩ := h
      exact hrest h
    · rcases h with h | ⟨_, t, -, h⟩
      · exact ⟨e, List.mem_cons_self, runsOut_mapPathOperations h⟩
      · exact hrest h

theorem not_runsOut_declareAll {ds : List TypeDecl} : ¬ RunsOut (declareAll ds) s s' := by
  intro h
  induction ds generalizing s with
  | nil => simp [declareAll] at h
  | cons d rest ih =>
    simp only [declareAll, runsOut_bind, not_runsOut_declare, not_runsOut_pure, and_false, exists_false, or_false,
      false_or] at h
    obtain ⟨_, t, -, h⟩ := h
    exact ih h

theorem runsOut_declareComponents {schemas : KeyMap Schema} (h : RunsOut (declareComponents doc fuel schemas) s s') :
    ∃ e ∈ schemas, OutAt doc fuel (e.2, .component) s' := by
  induction schemas generalizing s with
  | nil => simp [declareComponents] at h
  | cons e rest ih =>
    simp only [declareComponents, runsOut_bind, not_runsOut_pure, and_false, exists_false, or_false] at h
    rcases h with h | ⟨_, t, -, h⟩
    · exact ⟨e, List.mem_cons_self, runsOut_declareComponent h⟩
    · obtain ⟨e', he', hout⟩ := ih h
      exact ⟨e', List.mem_cons_of_mem e he', hout⟩

theorem runsOut_groupings {operations : List TaggedOperation} {left : Unclaimed} {tags : List String}
    (h : RunsOut (groupings doc fuel operations left tags) s s') :
    ∃ e ∈ doc.components.responses, ∃ sch, e.2.jsonSchema? = some sch ∧ OutAt doc fuel (sch, .nested) s' := by
  induction tags generalizing s left with
  | nil => simp [groupings] at h
  | cons tag rest ih =>
    simp only [groupings, grouping, runsOut_bind, not_runsOut_pure, and_false, exists_false, or_false] at h
    rcases h with h | ⟨_, t, -, h⟩
    · exact runsOut_declareResponses h
    · exact ih h

theorem runsOut_buildModel {config : Config} (h : RunsOut (buildModel doc config fuel) s s') :
    ∃ c ∈ started doc, OutAt doc fuel c s' := by
  have hpayload {sch : Schema} (hsch : sch ∈ doc.components.responses.filterMap (·.2.jsonSchema?) ++
      doc.paths.flatMap fun e => e.2.operations.flatMap fun o => payloadSchemas doc o.2) :
      (sch, Position.nested) ∈ started doc := List.mem_append_right _ (List.mem_map_of_mem hsch)
  have hresponse (h : ∃ e ∈ doc.components.responses, ∃ sch, e.2.jsonSchema? = some sch ∧
      OutAt doc fuel (sch, .nested) s') : ∃ c ∈ started doc, OutAt doc fuel c s' := by
    obtain ⟨e, he, sch, hsch, hout⟩ := h
    exact ⟨_, hpayload (List.mem_append_left _ (List.mem_filterMap.mpr ⟨e, he, hsch⟩)), hout⟩
  simp only [buildModel, runsOut_bind, not_runsOut_declareAll, not_runsOut_pure, and_false, exists_false, or_false,
    false_or] at h
  obtain ⟨_, _, -, h | ⟨_, _, -, h | ⟨_, _, -, h | ⟨_, _, -, h⟩⟩⟩⟩ := h
  · obtain ⟨e, he, hout⟩ := runsOut_declareComponents h
    exact ⟨_, List.mem_append_left _ (List.mem_map_of_mem he), hout⟩
  · obtain ⟨e, he, o, ho, sch, hsch, hout⟩ := runsOut_mapPaths h
    exact ⟨_, hpayload (List.mem_append_right _
      (List.mem_flatMap.mpr ⟨e, he, List.mem_flatMap.mpr ⟨o, ho, hsch⟩⟩)), hout⟩
  · exact hresponse (runsOut_groupings h)
  · exact hresponse (runsOut_declareResponses h)

end ClientGen.Resolve
