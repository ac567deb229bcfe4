import ClientGen.Build.Model
import ClientGen.Proofs.Run.Operation

/-
  ClientGen.Proofs.Run.Build — the phases of a build and the sessions between them.

  `runs_buildModel` takes a build apart: helpers, components, operations, groupings, and what is
  left over for the shared file. The lists inside a phase are taken apart one element at a time,
  and what gathers along such a list is an induction made once (`Gathers`).
-/

namespace ClientGen.Resolve

variable {doc : Document} {fuel : Nat} {s s' : Session}

/-! ## Lists -/

theorem runs_declareAll_cons {d : TypeDecl} {rest : List TypeDecl} {ds : List Declaration}
    (h : Runs (declareAll (d :: rest)) s ds s') :
    ∃ o t more, Runs (declare (.type d)) s o t ∧ Runs (declareAll rest) t more s' ∧ ds = o.toList ++ more := by
  simp only [declareAll, runs_bind, runs_pure] at h
  obtain ⟨o, t, ho, more, _, hrest, rfl, rfl⟩ := h
  exact ⟨o, t, more, ho, hrest, rfl⟩

theorem runs_declareComponents_cons {key : String} {sch : Schema} {rest : KeyMap Schema}
    {components : KeyMap (List Declaration)}
    (h : Runs (declareComponents doc fuel ((key, sch) :: rest)) s components s') :
    ∃ ds t more, Runs (declareComponent doc fuel key sch) s ds t ∧ Runs (declareComponents doc fuel rest) t more s' ∧
      components = (key, ds) :: more := by
  simp only [declareComponents, runs_bind, runs_pure] at h
  obtain ⟨ds, t, hd, more, _, hrest, rfl, rfl⟩ := h
  exact ⟨ds, t, more, hd, hrest, rfl⟩

theorem runs_mapPathOperations_cons {path : String} {item : PathItem} {method : HttpMethod} {op : Operation}
    {rest : List (HttpMethod × Operation)} {operations : List TaggedOperation}
    (h : Runs (mapPathOperations doc fuel path item ((method, op) :: rest)) s operations s') :
    ∃ mapped t more, Runs (mapOperation doc fuel method path op item.parameters) s mapped t ∧
      Runs (mapPathOperations doc fuel path item rest) t more s' ∧
      operations = ⟨op.tag, doc.operationReach op item.parameters, mapped⟩ :: more := by
  simp only [mapPathOperations, runs_bind, runs_pure] at h
  obtain ⟨mapped, t, hm, more, _, hrest, rfl, rfl⟩ := h
  exact ⟨mapped, t, more, hm, hrest, rfl⟩

/-- A path either is mapped operation by operation or, as a reference, only reported. -/
theorem runs_mapPaths_cons {path : String} {item : PathItem} {rest : KeyMap PathItem}
    {operations : List TaggedOperation} (h : Runs (mapPaths doc fuel ((path, item) :: rest)) s operations s') :
    (item.reference.isSome ∧ ∃ d : Diagnostic,
        Runs (mapPaths doc fuel rest) { s with diagnostics := s.diagnostics ++ [d] } operations s') ∨
      (item.reference = none ∧ ∃ own t more, Runs (mapPathOperations doc fuel path item item.operations) s own t ∧
        Runs (mapPaths doc fuel rest) t more s' ∧ operations = own ++ more) := by
  simp only [mapPaths] at h
  split at h
  · rename_i hr
    simp only [runs_bind, runs_report] at h
    obtain ⟨_, _, rfl, h⟩ := h
    exact .inl ⟨by rw [hr]; rfl, _, h⟩
  · simp only [runs_bind, runs_pure] at h
    obtain ⟨own, t, hown, more, _, hrest, rfl, rfl⟩ := h
    exact .inr ⟨‹_›, own, t, more, hown, hrest, rfl⟩

theorem runs_declareResponses_cons {key : String} {rest : List String} {ds : List Declaration}
    (h : Runs (declareResponses doc fuel (key :: rest)) s ds s') :
    ∃ own t more, ((KeyMap.get? doc.components.responses key = none ∧ own = [] ∧ t = s) ∨
        ∃ r, KeyMap.get? doc.components.responses key = some r ∧
          Runs (declareResponseComponent doc fuel key r) s own t) ∧
      Runs (declareResponses doc fuel rest) t more s' ∧ ds = own ++ more := by
  simp only [declareResponses] at h
  split at h
  · rename_i r hr
    simp only [runs_bind, runs_pure] at h
    obtain ⟨own, t, hown, more, _, hrest, rfl, rfl⟩ := h
    exact ⟨own, t, more, .inr ⟨r, hr, hown⟩, hrest, rfl⟩
  · rename_i hr
    simp only [runs_bind, runs_pure] at h
    obtain ⟨_, _, ⟨rfl, rfl⟩, more, _, hrest, rfl, rfl⟩ := h
    exact ⟨[], s, more, .inl ⟨hr, rfl, rfl⟩, hrest, rfl⟩

theorem runs_declareResponses_append {keys keys' : List String} {ds es : List Declaration} {t : Session}
    (h : Runs (declareResponses doc fuel keys) s ds t) (h' : Runs (declareResponses doc fuel keys') t es s') :
    Runs (declareResponses doc fuel (keys ++ keys')) s (ds ++ es) s' := by
  induction keys generalizing s ds with
  | nil =>
    simp only [declareResponses, runs_pure] at h
    obtain ⟨rfl, rfl⟩ := h
    exact h'
  | cons key rest ih =>
    simp only [List.cons_append, declareResponses] at h ⊢
    split at h <;> simp only [runs_bind, runs_pure] at h ⊢ <;>
      obtain ⟨own, u, hown, more, _, hrest, rfl, rfl⟩ := h <;>
      exact ⟨own, u, hown, more ++ es, s', ih hrest, (List.append_assoc _ _ _).symm, rfl⟩

/-- A relation of the registries before and after to what is declared in between, which holds of
    nothing and of one after the other. -/
structure Gathers (R : Registry → List Declaration → Registry → Prop) : Prop where
  nil : ∀ r, R r [] r
  append : ∀ {r t r' ds es}, R r ds t → R t es r' → R r (ds ++ es) r'

namespace Gathers

variable {R : Registry → List Declaration → Registry → Prop} (hR : Gathers R)
include hR

theorem declareAll {types : List TypeDecl} {ds : List Declaration}
    (hone : ∀ d ∈ types, ∀ {s o s'}, Runs (declare (.type d)) s o s' → R s.registry o.toList s'.registry)
    (h : Runs (Resolve.declareAll types) s ds s') : R s.registry ds s'.registry := by
  induction types generalizing s ds with
  | nil =>
    simp only [Resolve.declareAll, runs_pure] at h
    obtain ⟨rfl, rfl⟩ := h
    exact hR.nil _
  | cons d rest ih =>
    obtain ⟨o, t, more, ho, hrest, rfl⟩ := runs_declareAll_cons h
    exact hR.append (hone d List.mem_cons_self ho) (ih (fun x hx => hone x (List.mem_cons_of_mem d hx)) hrest)

theorem declareComponents {schemas : KeyMap Schema} {components : KeyMap (List Declaration)}
    (hone : ∀ e ∈ schemas, ∀ {s ds s'}, Runs (declareComponent doc fuel e.1 e.2) s ds s' → R s.registry ds s'.registry)
    (h : Runs (Resolve.declareComponents doc fuel schemas) s components s') :
    R s.registry (components.flatMap (·.2)) s'.registry := by
  induction schemas generalizing s components with
  | nil =>
    simp only [Resolve.declareComponents, runs_pure] at h
    obtain ⟨rfl, rfl⟩ := h
    exact hR.nil _
  | cons e rest ih =>
    obtain ⟨ds, t, more, hd, hrest, rfl⟩ := runs_declareComponents_cons h
    exact hR.append (hone e List.mem_cons_self hd) (ih (fun x hx => hone x (List.mem_cons_of_mem e hx)) hrest)

/-- A key without a response component declares nothing. -/
theorem declareResponses {keys : List String} {ds : List Declaration}
    (hone : ∀ {key r}, KeyMap.get? doc.components.responses key = some r → ∀ {s ds s'},
      Runs (declareResponseComponent doc fuel key r) s ds s' → R s.registry ds s'.registry)
    (h : Runs (Resolve.declareResponses doc fuel keys) s ds s') : R s.registry ds s'.registry := by
  induction keys generalizing s ds with
  | nil =>
    simp only [Resolve.declareResponses, runs_pure] at h
    obtain ⟨rfl, rfl⟩ := h
    exact hR.nil _
  | cons key rest ih =>
    obtain ⟨own, t, more, hown, hrest, rfl⟩ := runs_declareResponses_cons h
    rcases hown with ⟨-, rfl, rfl⟩ | ⟨r, hget, hr⟩
    · exact ih hrest
    · exact hR.append (hone hget hr) (ih hrest)

end Gathers

/-! ## Groupings -/

/-- The component schemas that operations reach. -/
def reachedBy (operations : List TaggedOperation) : List String := operations.flatMap (·.schemas)

/-- The response components that operations use. -/
def usedBy (operations : List TaggedOperation) : List String := firstByKey id (operations.flatMap (·.mapped.responseRefs))

/-- A grouping takes what its operations reach and use, in this order: components, bodies,
    parameters, inline responses, response components. -/
theorem runs_grouping {left left' : Unclaimed} {tag : String} {operations : List TaggedOperation} {g : Grouping}
    (h : Runs (grouping doc fuel left tag operations) s (g, left') s') :
    ∃ responseTypes,
      Runs (declareResponses doc fuel ((usedBy operations).filter left.responses.contains)) s responseTypes s' ∧
      g.declarations = (left.schemas.filter fun (key, _) => (reachedBy operations).contains key).flatMap (·.2) ++
        operations.flatMap (·.mapped.bodyTypes) ++ operations.flatMap (·.mapped.paramTypes) ++
        operations.flatMap (·.mapped.responseTypes) ++ responseTypes ∧
      g.methods = operations.map (·.mapped.method) ∧ g.tag = tag ∧ g.name = Name.proper tag ∧
      left' = ⟨left.schemas.filter fun (key, _) => !(reachedBy operations).contains key,
        left.responses.filter (!(usedBy operations).contains ·)⟩ := by
  simp only [grouping, runs_bind, runs_pure, Prod.mk.injEq] at h
  obtain ⟨responseTypes, _, hr, ⟨rfl, rfl⟩, rfl⟩ := h
  exact ⟨responseTypes, hr, rfl, rfl, rfl, rfl, rfl⟩

theorem runs_groupings_cons {operations : List TaggedOperation} {left left' : Unclaimed} {tag : String}
    {rest : List String} {gs : List Grouping}
    (h : Runs (groupings doc fuel operations left (tag :: rest)) s (gs, left') s') :
    ∃ g mid t more, Runs (grouping doc fuel left tag (operations.filter (·.tag = tag))) s (g, mid) t ∧
      Runs (groupings doc fuel operations mid rest) t (more, left') s' ∧ gs = g :: more := by
  simp only [groupings, runs_bind, runs_pure, Prod.mk.injEq] at h
  obtain ⟨⟨g, mid⟩, t, hg, ⟨more, _⟩, _, hrest, ⟨rfl, rfl⟩, rfl⟩ := h
  exact ⟨g, mid, t, more, hg, hrest, rfl⟩

/-- There is one grouping for each tag, and its methods are those of the operations with the tag. -/
theorem groupings_methods {operations : List TaggedOperation} {tags : List String} {left left' : Unclaimed}
    {gs : List Grouping} (h : Runs (groupings doc fuel operations left tags) s (gs, left') s') :
    gs.map (·.tag) = tags ∧ ∀ g ∈ gs, g.name = Name.proper g.tag ∧
      g.methods = (operations.filter (·.tag = g.tag)).map (·.mapped.method) := by
  induction tags generalizing s left gs with
  | nil =>
    simp only [groupings, runs_pure, Prod.mk.injEq] at h
    obtain ⟨⟨rfl, -⟩, -⟩ := h
    exact ⟨rfl, by simp⟩
  | cons tag rest ih =>
    obtain ⟨g, mid, t, more, hg, hrest, rfl⟩ := runs_groupings_cons h
    obtain ⟨-, -, -, hmethods, rfl, hname, -⟩ := runs_grouping hg
    obtain ⟨htags, hmore⟩ := ih hrest
    refine ⟨by rw [List.map_cons, htags], ?_⟩
    intro x hx
    rcases List.mem_cons.mp hx with rfl | hx
    · exact ⟨hname, hmethods⟩
    · exact hmore x hx

/-! ## The whole build -/

/-- What a build has when its phases are done, before errors are marked. -/
structure Phases (doc : Document) (fuel : Nat) where
  helpers : List Declaration
  afterHelpers : Session
  components : KeyMap (List Declaration)
  afterComponents : Session
  operations : List TaggedOperation
  afterOperations : Session
  groups : List Grouping
  left : Unclaimed
  afterGroups : Session
  responseTypes : List Declaration
  final : Session
  runsHelpers : Runs (declareAll calendarHelpers) .start helpers afterHelpers
  runsComponents : Runs (declareComponents doc fuel doc.components.schemas) afterHelpers components afterComponents
  runsOperations : Runs (mapPaths doc fuel doc.paths) afterComponents operations afterOperations
  runsGroups : Runs (groupings doc fuel operations ⟨components, doc.components.responses.keys⟩ (tagsOf operations))
    afterOperations (groups, left) afterGroups
  runsResponses : Runs (declareResponses doc fuel left.responses) afterGroups responseTypes final

namespace Phases

/-- The declarations that no grouping took. -/
def shared (p : Phases doc fuel) : List Declaration := p.helpers ++ p.left.schemas.flatMap (·.2) ++ p.responseTypes

def sortedGroups (p : Phases doc fuel) : List Grouping := sortBy Grouping.le p.groups

/-- The names of error types, followed along aliases. -/
def errors (p : Phases doc fuel) : List String :=
  let errorTypes := p.operations.flatMap (·.mapped.errorTypes)
  followErrors (namedAliases (p.sortedGroups.flatMap (·.declarations) ++ p.shared)) errorTypes errorTypes

end Phases

theorem runs_buildModel {config : Config} {m : ApiModel}
    (h : Runs (buildModel doc config fuel) .start m s') :
    ∃ p : Phases doc fuel, s' = p.final ∧
      m.groupings = p.sortedGroups.map (fun g => { g with declarations := markErrors p.errors g.declarations }) ∧
      m.shared = markErrors p.errors p.shared ∧ m.groupingNames = p.sortedGroups.map (·.name) := by
  simp only [buildModel, runs_bind, runs_pure] at h
  obtain ⟨helpers, s1, h1, components, s2, h2, operations, s3, h3, ⟨groups, left⟩, s4, h4, responseTypes, s5, h5,
    rfl, rfl⟩ := h
  exact ⟨⟨helpers, s1, components, s2, operations, s3, groups, left, s4, responseTypes, s5, h1, h2, h3, h4, h5⟩,
    rfl, rfl, rfl, rfl⟩

theorem version_of_buildModel {config : Config} {m : ApiModel} (h : Runs (buildModel doc config fuel) .start m s') :
    m.version = doc.info.version := by
  simp only [buildModel, runs_bind, runs_pure] at h
  obtain ⟨_, _, _, _, _, _, _, _, _, ⟨_, _⟩, _, _, _, _, _, rfl, rfl⟩ := h
  rfl

theorem package_of_buildModel {config : Config} {m : ApiModel} (h : Runs (buildModel doc config fuel) .start m s') :
    m.package = config.package := by
  simp only [buildModel, runs_bind, runs_pure] at h
  obtain ⟨_, _, _, _, _, _, _, _, _, ⟨_, _⟩, _, _, _, _, _, rfl, rfl⟩ := h
  rfl

/-- A build that answers is a run of its phases. -/
theorem runs_of_build {config : Config} {m : ApiModel} {ds : List Diagnostic}
    (h : build fuel doc config = .ok (m, ds)) :
    ∃ s', Runs (buildModel doc config fuel) .start m s' ∧ ds = s'.diagnostics := by
  unfold build at h
  split at h
  · rename_i model s' hrun
    cases h
    exact ⟨s', hrun, rfl⟩
  · cases h

/-- A build that answers, with a model and diagnostics that pass a test. -/
theorem exists_build_of_passes {config : Config} {test : ApiModel → List Diagnostic → Bool}
    (h : (build fuel doc config).toOption.any (fun r => test r.1 r.2) = true) :
    ∃ model ds, build fuel doc config = .ok (model, ds) ∧ test model ds = true := by
  cases hbuild : build fuel doc config with
  | ok r =>
    rw [hbuild] at h
    exact ⟨r.1, r.2, rfl, h⟩
  | error e =>
    rw [hbuild] at h
    cases h

end ClientGen.Resolve
