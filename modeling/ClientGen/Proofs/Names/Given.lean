import ClientGen.Proofs.Grouping.Endpoint
import ClientGen.Proofs.Names.Line
import ClientGen.Proofs.Names.Made
import ClientGen.Proofs.Names.Payloads

/-
  ClientGen.Proofs.Names.Given — the names that a document gives.

  Components, response components and the parts of operations are resolved under names that the
  document gives (`Document.givenNames`). Every declaration of a build is named after one of
  them that the build declares itself (`Phases.rooted`). So what passes from the names given to
  the names after them holds of all names: none has a character that separates words, unless
  a plus sign comes from a status (`Phases.lacks`), and all are on one line (`Phases.oneLine`).
-/

namespace ClientGen

namespace Endpoint

/-- The names for responses that are no references and have a schema. -/
def responseNames (operationName : String) (responses : List (String × RefOr ResponseSpec)) : List String :=
  responses.filterMap fun (key, r) =>
    match r with
    | .ref _ => none
    | .item spec =>
      if (Status.parse? key).isSome then spec.jsonSchema?.map (inlineResponseName operationName key) else none

/-- The names for the query parameters, the body and the responses of an endpoint. -/
def typeNames (e : Endpoint) : List String :=
  let name := Name.proper (e.operation.idOr e.method e.path)
  [name ++ "Params", name ++ "Body"] ++ responseNames name e.operation.responses

end Endpoint

namespace Document

/-- The names that components claim. -/
def componentNames (doc : Document) : List String :=
  doc.components.schemas.map fun (key, sch) => Resolve.ownName sch (Name.identifier key)

/-- The names for response components and for what operations declare. -/
def payloadNames (doc : Document) : List String :=
  doc.components.responses.keys.map responseComponentName ++ doc.endpoints.flatMap Endpoint.typeNames

def givenNames (doc : Document) : List String :=
  Resolve.calendarHelpers.map (·.name) ++ doc.componentNames ++ doc.payloadNames

end Document

namespace Resolve

variable {doc : Document} {fuel : Nat} {s s' : Session} {r r' : Registry} {given given' : List String}

/-- Declarations after given names that are in the registry. -/
def Rooted (given : List String) (r : Registry) (ds : List Declaration) : Prop :=
  ∀ d ∈ ds, ∃ root ∈ given, root ∈ r.keys ∧ d.MadeFrom root

namespace Rooted

variable {ds es : List Declaration}

theorem nil : Rooted given r [] := List.forall_mem_nil _

theorem append (hd : Rooted given r ds) (he : Rooted given r es) : Rooted given r (ds ++ es) :=
  List.forall_mem_append.mpr ⟨hd, he⟩

theorem mono (h : Rooted given r ds) (hgiven : given ⊆ given') (hkeys : ∀ n ∈ r.keys, n ∈ r'.keys) :
    Rooted given' r' ds := by
  intro d hd
  obtain ⟨root, hroot, hkey, hmade⟩ := h d hd
  exact ⟨root, hgiven hroot, hkeys root hkey, hmade⟩

theorem of_made {root : String} (h : MadeAll root ds) (hroot : root ∈ given) (hkey : ds ≠ [] → root ∈ r.keys) :
    Rooted given r ds := by
  intro d hd
  exact ⟨root, hroot, hkey (List.ne_nil_of_mem hd), h d hd⟩

end Rooted

/-! ## Components and payloads -/

theorem declareComponent_made {key : String} {sch : Schema} {ds : List Declaration}
    (h : Runs (declareComponent doc fuel key sch) s ds s') : MadeAll (ownName sch (Name.identifier key)) ds := by
  rcases runs_declareComponent h with ⟨hself, r, hr, rfl⟩ | ⟨hself, -, r, t, hr, rfl, -⟩ | ⟨-, -, rfl⟩
  · cases fuel with
    | zero => cases hr
    | succ fuel => exact declared_made (resolveAt_made doc _ fuel) .self (runs_component hself hr)
  · rw [ownName_of_not_self hself]
    exact madeAll_cons ⟨rfl, List.forall_mem_nil _, .self⟩ (resolveAt_made doc _ fuel .self hr)
  · exact madeAll_nil

theorem declare_made {d : Declaration} {o : Option Declaration} {root : String} (h : Runs (declare d) s o s')
    (hd : d.MadeFrom root) : MadeAll root o.toList := by
  rcases runs_declare h with ⟨rfl, -, -⟩ | ⟨rfl, -⟩
  · exact madeAll_cons hd madeAll_nil
  · exact madeAll_nil

/-- What is declared on the way to a named type is declared under that name. -/
theorem resolveAt_mem_keys {sch : Schema} {name : String} {position : Position} {r : Resolution} {n : String}
    (h : Runs (resolveAt doc fuel sch name position) s r s') (hds : r.declarations ≠ []) (ht : r.type = .named n) :
    n ∈ s'.registry.keys := by
  induction fuel generalizing sch name position r with
  | zero => cases h
  | succ fuel ih =>
    cases runs_step h with
    | reference _ => exact absurd rfl hds
    | builtin _ _ _ => exact absurd rfl hds
    | array _ _ => cases ht
    | only _ _ hb => exact ih hb hds ht
    | declared _ _ hd =>
      obtain ⟨htype, hmem⟩ := declared_mem_keys (resolveAt_emits doc fuel) hd
      rw [htype] at ht
      cases ht
      exact hmem

theorem declareNamed_rooted {name : String} {sch : Schema} {ds : List Declaration}
    (h : Runs (declareNamed doc fuel name sch) s ds s') : Rooted [name] s'.registry ds := by
  obtain ⟨r, t, hr, hrest⟩ := runs_declareNamed h
  have hpayload : NamedAfter name (payloadName sch name) := by
    unfold payloadName
    split
    · exact .self
    · exact .items .self
  have hresolved : MadeAll name r.declarations := by
    rcases hr with ⟨target, -, rfl, -⟩ | hr
    · exact madeAll_nil
    · exact resolveAt_made doc name fuel hpayload hr
  rcases hrest with ⟨ht, rfl, rfl⟩ | ⟨-, o, ho, rfl⟩
  · refine .of_made hresolved List.mem_cons_self ?_
    intro hds
    rcases hr with ⟨target, -, rfl, -⟩ | hr
    · exact absurd rfl hds
    · exact resolveAt_mem_keys hr hds ht
  · refine .of_made ?_ List.mem_cons_self fun _ => declare_mem_keys ho
    exact (declare_made ho ⟨rfl, List.forall_mem_nil _, .self⟩).append hresolved

theorem declareResponseComponent_rooted {key : String} {r : ResponseSpec} {ds : List Declaration}
    (h : Runs (declareResponseComponent doc fuel key r) s ds s') :
    Rooted [responseComponentName key] s'.registry ds := by
  rcases runs_declareResponseComponent h with ⟨sch, -, h⟩ | ⟨repr, o, hrepr, ho, rfl⟩
  · exact declareNamed_rooted h
  · refine .of_made (declare_made ho ⟨rfl, ?_, .self⟩) List.mem_cons_self fun _ => declare_mem_keys ho
    rcases hrepr with rfl | rfl
    · exact List.forall_mem_nil _
    · exact List.forall_mem_nil _

/-- The names that were in the registry stay there, so what was declared after them still is. -/
theorem rooted_gathers (given : List String) :
    Gathers fun r ds r' => (∀ n ∈ r.keys, n ∈ r'.keys) ∧ Rooted given r' ds where
  nil _ := ⟨fun _ => id, .nil⟩
  append h h' := ⟨fun n hn => h'.1 n (h.1 n hn), (h.2.mono (List.Subset.refl _) h'.1).append h'.2⟩

theorem declareAll_rooted {types : List TypeDecl} (htypes : ∀ d ∈ types, d.isError = false ∧ d.fields = [])
    {ds : List Declaration} (h : Runs (declareAll types) s ds s') :
    Rooted (types.map (·.name)) s'.registry ds := by
  refine ((rooted_gathers _).declareAll ?_ h).2
  intro d hd s o s' ho
  obtain ⟨hmark, hfields⟩ := htypes d hd
  have hformed : (Declaration.type d).Formed := by
    show ∀ f ∈ d.fields, _
    rw [hfields]
    exact List.forall_mem_nil _
  refine ⟨fun n => (declare_emits rfl ho).mem_keys, ?_⟩
  exact .of_made (declare_made ho ⟨hmark, hformed, .self⟩) (List.mem_map_of_mem hd) fun _ => declare_mem_keys ho

theorem declareComponents_rooted {schemas : KeyMap Schema} {components : KeyMap (List Declaration)}
    (h : Runs (declareComponents doc fuel schemas) s components s') :
    Rooted (schemas.map fun (key, sch) => ownName sch (Name.identifier key)) s'.registry
      (components.flatMap (·.2)) := by
  refine ((rooted_gathers _).declareComponents ?_ h).2
  intro e he s ds s' hd
  refine ⟨fun n => (declareComponent_emits hd).mem_keys, ?_⟩
  exact .of_made (declareComponent_made hd) (List.mem_map_of_mem he) fun _ => declareComponent_mem_keys hd

theorem declareResponses_rooted {keys : List String} {ds : List Declaration}
    (h : Runs (declareResponses doc fuel keys) s ds s') :
    Rooted (doc.components.responses.keys.map responseComponentName) s'.registry ds := by
  refine ((rooted_gathers _).declareResponses ?_ h).2
  intro key r hget s ds s' hr
  refine ⟨fun n => (declareResponseComponent_emits hr).mem_keys, ?_⟩
  refine (declareResponseComponent_rooted hr).mono ?_ fun _ => id
  exact List.cons_subset.mpr ⟨List.mem_map_of_mem (KeyMap.mem_keys_of_get? hget), List.nil_subset _⟩

/-! ## Operations -/

theorem responses_rooted {operationId operationName : String} {rs : List (String × RefOr ResponseSpec)}
    {ms : List MappedResponse} {ds : List Declaration}
    (h : Runs (responses doc fuel operationId operationName rs) s (ms, ds) s') :
    Rooted (Endpoint.responseNames operationName rs) s'.registry ds := by
  induction rs generalizing s ms ds with
  | nil =>
    simp only [responses, runs_pure, Prod.mk.injEq] at h
    obtain ⟨⟨-, rfl⟩, -⟩ := h
    exact .nil
  | cons e rest ih =>
    obtain ⟨m, own, t, more, moreDs, hone, hrest, -, rfl⟩ := runs_responses_cons h
    have hmore : Rooted (Endpoint.responseNames operationName (e :: rest)) s'.registry moreDs :=
      (ih hrest).mono (List.filterMap_subset _ (List.subset_cons_self ..)) fun _ => id
    refine .append ?_ hmore
    obtain ⟨status, hkey, htype, -⟩ := runs_response hone
    rcases runs_responseType htype with ⟨_, -, -, rfl, -⟩ | ⟨_, -, -, -, rfl, -⟩ | ⟨_, _, _, -, -, -, -, rfl, -⟩ |
      ⟨spec, sch, hspec, hsch, -, hnamed⟩
    · exact .nil
    · exact .nil
    · exact .nil
    · refine (declareNamed_rooted hnamed).mono ?_ fun n => (responses_emits hrest).mem_keys
      refine List.cons_subset.mpr ⟨?_, List.nil_subset _⟩
      refine List.mem_filterMap.mpr ⟨e, List.mem_cons_self, ?_⟩
      simp [hspec, hkey, hsch]

theorem queryFields_keyed (doc : Document) (operationId operationName : String) (parameters : List ParameterSpec) :
    NamedByKey (queryFields doc operationId operationName parameters).1 := by
  rw [queryFields_eq]
  intro f hf
  obtain ⟨p, -, rfl⟩ := List.mem_map.mp hf
  rfl

theorem queryParams_rooted {operationId operationName : String} {parameters : List ParameterSpec}
    {ds : List Declaration} {query : Option Argument}
    (h : Runs (queryParams doc operationId operationName parameters) s (ds, query) s') :
    Rooted [operationName ++ "Params"] s'.registry ds := by
  rcases runs_queryParams h with ⟨rfl, -, -⟩ | ⟨t, o, -, -, ho, rfl⟩
  · exact .nil
  · refine .of_made ?_ List.mem_cons_self fun _ => declare_mem_keys ho
    have hkeyed := (queryFields_keyed doc operationId operationName parameters).sortedFields
    rcases runs_declare ho with ⟨rfl, -, -⟩ | ⟨rfl, -⟩
    · exact madeAll_cons ⟨rfl, hkeyed, .self⟩ (madeAll_cons ⟨rfl, trivial, .self⟩ madeAll_nil)
    · exact madeAll_nil

theorem requestBody_rooted {operationName : String} {op : Operation} {ds : List Declaration} {body : Option Argument}
    (h : Runs (requestBody doc fuel operationName op) s (ds, body) s') :
    Rooted [operationName ++ "Body"] s'.registry ds := by
  rcases runs_requestBody h with ⟨-, rfl, -, -⟩ | ⟨sch, -, hnamed, -⟩
  · exact .nil
  · exact declareNamed_rooted hnamed

theorem mapOperation_rooted {e : Endpoint} {m : MappedOperation} (h : Runs (e.mapped doc fuel) s m s') :
    Rooted e.typeNames s'.registry m.declarations := by
  obtain ⟨t, t1, t2, mapped, -, hq, hb, hr, -⟩ := runs_mapOperation h
  have hafter : ∀ n ∈ t2.registry.keys, n ∈ s'.registry.keys := fun n => (responses_emits hr).mem_keys
  refine .append (.append ?_ ?_) ?_
  · exact (requestBody_rooted hb).mono (by simp [Endpoint.typeNames]) hafter
  · refine (queryParams_rooted hq).mono (by simp [Endpoint.typeNames]) ?_
    exact fun n hn => hafter n ((requestBody_emits hb).mem_keys hn)
  · exact (responses_rooted hr).mono (List.subset_append_right _ _) fun _ => id

theorem Mapping.rooted {es : List Endpoint} {operations : List TaggedOperation}
    (h : Mapping doc fuel es s operations s') :
    Rooted (es.flatMap Endpoint.typeNames) s'.registry (operations.flatMap (·.mapped.declarations)) := by
  induction h with
  | done => exact .nil
  | passed _ _ ih => exact ih
  | mapped hone hrest ih =>
    refine ((mapOperation_rooted hone).mono (List.subset_append_left _ _) ?_).append
      (ih.mono (List.subset_append_right _ _) fun _ => id)
    exact fun n => hrest.adds.mem_keys

/-! ## The whole build -/

theorem calendarHelpers_plain : ∀ d ∈ calendarHelpers, d.isError = false ∧ d.fields = [] := by decide

namespace Phases

/-- Names declared before the operations are mapped are there at the end. -/
theorem mem_keys_final (p : Phases doc fuel) {n : String} (h : n ∈ p.afterComponents.registry.keys) :
    n ∈ p.final.registry.keys := by
  obtain ⟨keys, added, hadded, -, -⟩ := p.perm
  have hoperations := p.mapping.adds.mem_keys h
  exact (declareResponses_emits p.runsResponses).mem_keys ((declareResponses_emits hadded).mem_keys hoperations)

/-- Every component has its name declared. -/
theorem componentNames_declared (p : Phases doc fuel) : ∀ name ∈ doc.componentNames, name ∈ p.final.registry.keys := by
  intro name hname
  obtain ⟨e, he, rfl⟩ := List.mem_map.mp hname
  exact p.mem_keys_final (declareComponents_mem_keys p.runsComponents e he)

/-- Every declaration of a build is named after a given name that the build declares. -/
theorem rooted (p : Phases doc fuel) :
    Rooted doc.givenNames p.final.registry (p.sortedGroups.flatMap (·.declarations) ++ p.shared) := by
  obtain ⟨keys, added, hadded, -, hperm⟩ := p.perm
  have hfinal : ∀ n ∈ p.afterGroups.registry.keys, n ∈ p.final.registry.keys :=
    fun n => (declareResponses_emits p.runsResponses).mem_keys
  have hhelpers : calendarHelpers.map (·.name) ⊆ doc.givenNames :=
    List.subset_append_of_subset_left _ (List.subset_append_left _ _)
  have hcomponents : doc.componentNames ⊆ doc.givenNames :=
    List.subset_append_of_subset_left _ (List.subset_append_right _ _)
  have hresponses : doc.components.responses.keys.map responseComponentName ⊆ doc.givenNames :=
    List.subset_append_of_subset_right _ (List.subset_append_left _ _)
  have hoperations : doc.endpoints.flatMap Endpoint.typeNames ⊆ doc.givenNames :=
    List.subset_append_of_subset_right _ (List.subset_append_right _ _)
  have hall := (((((declareAll_rooted calendarHelpers_plain p.runsHelpers).mono hhelpers
      fun n hn => p.mem_keys_final ((declareComponents_emits p.runsComponents).mem_keys hn)).append
    ((declareComponents_rooted p.runsComponents).mono hcomponents fun n => p.mem_keys_final)).append
    (p.mapping.rooted.mono hoperations
      fun n hn => hfinal n ((declareResponses_emits hadded).mem_keys hn))).append
    ((declareResponses_rooted hadded).mono hresponses hfinal)).append
    ((declareResponses_rooted p.runsResponses).mono hresponses fun _ => id)
  intro d hd
  exact hall d (hperm.mem_iff.mpr hd)

theorem unmarked (p : Phases doc fuel) {d : Declaration}
    (hd : d ∈ p.sortedGroups.flatMap (·.declarations) ++ p.shared) : d.isError = false := by
  obtain ⟨root, -, -, hmade⟩ := p.rooted d hd
  exact hmade.unmarked

end Phases

end Resolve

/-! ## Characters of names -/

section

variable {d : Char}

theorem NamedAfter.lacks (hd : Separates d) {root name : String} (h : NamedAfter root name) (hroot : Lacks d root) :
    Lacks d name := by
  induction h with
  | self => exact hroot
  | property key _ ih => exact ih.append (Name.lacks_identifier hd key)
  | option number _ ih => exact (ih.append (hd.lacks (by decide))).append (hd.lacks_toString number)
  | value _ ih => exact ih.append (hd.lacks (by decide))
  | items _ ih => exact ih.append (hd.lacks (by decide))
  | singular _ ih => exact Name.lacks_singular hd ih

theorem Endpoint.lacks_typeNames (hd : Separates d) (hplus : d ≠ '+') {e : Endpoint} :
    ∀ name ∈ e.typeNames, Lacks d name := by
  have hname := Name.lacks_proper hd (e.operation.idOr e.method e.path)
  refine List.forall_mem_append.mpr ⟨?_, ?_⟩
  · simp only [List.mem_cons, List.not_mem_nil, or_false, forall_eq_or_imp, forall_eq]
    exact ⟨hname.append (hd.lacks (by decide)), hname.append (hd.lacks (by decide))⟩
  · intro name hin
    obtain ⟨⟨key, r⟩, -, hr⟩ := List.mem_filterMap.mp hin
    dsimp only at hr
    split at hr
    · cases hr
    · split at hr
      · rename_i hkey
        obtain ⟨status, hkey⟩ := Option.isSome_iff_exists.mp hkey
        obtain ⟨sch, -, rfl⟩ := Option.map_eq_some_iff.mp hr
        exact lacks_inlineResponseName hd hplus sch hname hkey
      · cases hr

theorem Document.lacks_givenNames (hd : Separates d) (hplus : d ≠ '+') (doc : Document) :
    ∀ name ∈ doc.givenNames, Lacks d name := by
  have hhelpers : ∀ name ∈ Resolve.calendarHelpers.map (·.name), name.toList.all Char.isAlphanum = true := by decide
  refine List.forall_mem_append.mpr ⟨List.forall_mem_append.mpr ⟨fun name hname => hd.lacks (hhelpers name hname), ?_⟩,
    List.forall_mem_append.mpr ⟨?_, ?_⟩⟩
  · intro name hname
    obtain ⟨⟨key, sch⟩, -, rfl⟩ := List.mem_map.mp hname
    exact (NamedAfter.self.ownName sch).lacks hd (Name.lacks_identifier hd key)
  · intro name hname
    obtain ⟨key, -, rfl⟩ := List.mem_map.mp hname
    exact lacks_responseComponentName hd key
  · intro name hname
    obtain ⟨e, -, hin⟩ := List.mem_flatMap.mp hname
    exact e.lacks_typeNames hd hplus name hin

/-- No declared name has a character that separates words, unless it is a plus sign. -/
theorem Resolve.Phases.lacks (hd : Separates d) (hplus : d ≠ '+') {doc : Document} {fuel : Nat} (p : Phases doc fuel)
    {x : Declaration} (hx : x ∈ p.sortedGroups.flatMap (·.declarations) ++ p.shared) : Lacks d x.name := by
  obtain ⟨root, hroot, -, hmade⟩ := p.rooted x hx
  exact hmade.named.lacks hd (doc.lacks_givenNames hd hplus root hroot)

end

theorem Resolve.Phases.oneLine {doc : Document} {fuel : Nat} (p : Phases doc fuel) {d : Declaration}
    (hd : d ∈ p.sortedGroups.flatMap (·.declarations) ++ p.shared) : OneLine d.name :=
  p.lacks separates_newline (by decide) hd

end ClientGen
