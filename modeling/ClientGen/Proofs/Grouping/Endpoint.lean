import ClientGen.Proofs.Document.Order
import ClientGen.Proofs.Run.Build
import ClientGen.Proofs.Run.Method

/-
  ClientGen.Proofs.Grouping.Endpoint — the operations of a document, one by one.

  An endpoint is an operation of a path item that is no reference. The endpoints of a document
  stand in the order of their paths and, within a path, of their methods
  (`Document.Ordered.endpoints`).
  A build maps them one after another in that order (`Phases.mapping`). What one mapped operation
  keeps, or adds, all of them do by induction on `Mapping`.
-/

namespace ClientGen

/-- An operation with its path and its method. -/
structure Endpoint where
  path : String
  item : PathItem
  method : HttpMethod
  operation : Operation

/-- A path item given as a reference has none. -/
def PathItem.endpoints (path : String) (item : PathItem) : List Endpoint :=
  if item.reference.isSome then [] else item.operations.map fun (method, op) => ⟨path, item, method, op⟩

def endpointsOf (paths : KeyMap PathItem) : List Endpoint := paths.flatMap fun (path, item) => item.endpoints path

def Document.endpoints (doc : Document) : List Endpoint := endpointsOf doc.paths

namespace Endpoint

def mapped (doc : Document) (fuel : Nat) (e : Endpoint) : Resolve MappedOperation :=
  Resolve.mapOperation doc fuel e.method e.path e.operation e.item.parameters

/-- What the operation was mapped to, under its tag. -/
def tagged (doc : Document) (e : Endpoint) (m : MappedOperation) : TaggedOperation :=
  ⟨e.operation.tag, doc.operationReach e.operation e.item.parameters, m⟩

theorem mem_of_mem_endpointsOf {paths : KeyMap PathItem} {e : Endpoint} (h : e ∈ endpointsOf paths) :
    (e.path, e.item) ∈ paths ∧ (e.method, e.operation) ∈ e.item.operations := by
  obtain ⟨⟨path, item⟩, hentry, he⟩ := List.mem_flatMap.mp h
  simp only [PathItem.endpoints] at he
  split at he
  · cases he
  · obtain ⟨⟨method, op⟩, hop, rfl⟩ := List.mem_map.mp he
    exact ⟨hentry, hop⟩

/-- The method that the operation is mapped to, in whatever session that is done. -/
structure MapsTo (doc : Document) (fuel : Nat) (e : Endpoint) (method : Method) : Prop where
  runs : ∃ s m s', Resolve.Runs (e.mapped doc fuel) s m s'
  method_eq : ∀ {s m s'}, Resolve.Runs (e.mapped doc fuel) s m s' → m.method = method

theorem mapsTo_of_runs {doc : Document} {fuel : Nat} {e : Endpoint} {s s' : Session} {m : MappedOperation}
    (h : Resolve.Runs (e.mapped doc fuel) s m s') : e.MapsTo doc fuel m.method where
  runs := ⟨s, m, s', h⟩
  method_eq := fun h' => Resolve.mapOperation_agrees _ _ _ _ h' h

theorem MapsTo.unique {doc : Document} {fuel : Nat} {e : Endpoint} {a b : Method} (ha : e.MapsTo doc fuel a)
    (hb : e.MapsTo doc fuel b) : a = b := by
  obtain ⟨s, m, s', h⟩ := ha.runs
  rw [← ha.method_eq h, hb.method_eq h]

end Endpoint

/-! ## Order -/

/-- Methods are taken in the order in which they are listed. -/
def HttpMethod.rank (method : HttpMethod) : Nat := HttpMethod.all.idxOf method

theorem HttpMethod.all_ordered : HttpMethod.all.Pairwise fun a b => a.rank < b.rank := by decide

/-- By path, and by method within a path. -/
def Endpoint.Before (a b : Endpoint) : Prop := a.path < b.path ∨ a.path = b.path ∧ a.method.rank < b.method.rank

theorem PathItem.path_of_mem_endpoints {path : String} {item : PathItem} {e : Endpoint}
    (h : e ∈ item.endpoints path) : e.path = path := by
  unfold endpoints at h
  split at h
  · cases h
  · obtain ⟨_, -, rfl⟩ := List.mem_map.mp h
    rfl

theorem PathItem.endpoints_ordered {path : String} {item : PathItem}
    (h : (item.operations.map (·.1)).Sublist HttpMethod.all) : (item.endpoints path).Pairwise Endpoint.Before := by
  unfold endpoints
  split
  · exact .nil
  · have hmethods := HttpMethod.all_ordered.sublist h
    rw [List.pairwise_map] at hmethods ⊢
    exact hmethods.imp fun hlt => .inr ⟨rfl, hlt⟩

/-- The endpoints of a document stand in the order of paths and methods. -/
theorem Document.Ordered.endpoints {doc : Document} (h : doc.Ordered) : doc.endpoints.Pairwise Endpoint.Before := by
  refine List.pairwise_flatMap.mpr ⟨?_, ?_⟩
  · intro entry hentry
    exact PathItem.endpoints_ordered (h.methods entry hentry)
  · refine List.Pairwise.imp ?_ h.paths
    intro entry other hlt a ha b hb
    left
    rw [PathItem.path_of_mem_endpoints ha, PathItem.path_of_mem_endpoints hb]
    exact hlt

/-! ## Mapping -/

namespace Resolve

variable {doc : Document} {fuel : Nat} {s s' : Session}

/-- The endpoint that an operation of a build was mapped from. -/
structure MappedFrom (doc : Document) (fuel : Nat) (e : Endpoint) (o : TaggedOperation) : Prop where
  tag : o.tag = e.operation.tag
  schemas : o.schemas = doc.operationReach e.operation e.item.parameters
  runs : ∃ s s', Runs (e.mapped doc fuel) s o.mapped s'

theorem MappedFrom.mapsTo {e : Endpoint} {o : TaggedOperation} (h : MappedFrom doc fuel e o) :
    e.MapsTo doc fuel o.mapped.method := by
  obtain ⟨s, s', hruns⟩ := h.runs
  exact Endpoint.mapsTo_of_runs hruns

/-- Endpoints mapped one after another. A path item that is passed over only adds to the reports. -/
inductive Mapping (doc : Document) (fuel : Nat) : List Endpoint → Session → List TaggedOperation → Session → Prop
  | done {s : Session} : Mapping doc fuel [] s [] s
  | passed {es : List Endpoint} {s s' : Session} {operations : List TaggedOperation} (d : Diagnostic) :
      Mapping doc fuel es { s with diagnostics := s.diagnostics ++ [d] } operations s' →
      Mapping doc fuel es s operations s'
  | mapped {e : Endpoint} {es : List Endpoint} {s t s' : Session} {m : MappedOperation}
      {operations : List TaggedOperation} : Runs (e.mapped doc fuel) s m t → Mapping doc fuel es t operations s' →
      Mapping doc fuel (e :: es) s (e.tagged doc m :: operations) s'

/-- The operations of a path, and what comes behind them. -/
theorem mapping_of_mapPathOperations {path : String} {item : PathItem} {ops : List (HttpMethod × Operation)}
    {es : List Endpoint} {t : Session} {own more : List TaggedOperation}
    (h : Runs (mapPathOperations doc fuel path item ops) s own t) (hmore : Mapping doc fuel es t more s') :
    Mapping doc fuel ((ops.map fun (method, op) => ⟨path, item, method, op⟩) ++ es) s (own ++ more) s' := by
  induction ops generalizing s own with
  | nil =>
    simp only [mapPathOperations, runs_pure] at h
    obtain ⟨rfl, rfl⟩ := h
    exact hmore
  | cons entry rest ih =>
    obtain ⟨mapped, u, others, hone, hrest, rfl⟩ := runs_mapPathOperations_cons h
    exact .mapped (e := ⟨path, item, entry.1, entry.2⟩) hone (ih hrest)

theorem mapping_of_mapPaths {paths : KeyMap PathItem} {operations : List TaggedOperation}
    (h : Runs (mapPaths doc fuel paths) s operations s') : Mapping doc fuel (endpointsOf paths) s operations s' := by
  induction paths generalizing s operations with
  | nil =>
    simp only [mapPaths, runs_pure] at h
    obtain ⟨rfl, rfl⟩ := h
    exact .done
  | cons entry rest ih =>
    obtain ⟨path, item⟩ := entry
    have hcons : endpointsOf ((path, item) :: rest) = item.endpoints path ++ endpointsOf rest := List.flatMap_cons
    rw [hcons, PathItem.endpoints]
    rcases runs_mapPaths_cons h with ⟨href, d, hrest⟩ | ⟨href, own, t, more, hown, hrest, rfl⟩
    · rw [if_pos href]
      exact .passed d (ih hrest)
    · rw [href, if_neg (by simp)]
      exact mapping_of_mapPathOperations hown (ih hrest)

/-- A build maps the endpoints of the document. -/
theorem Phases.mapping (p : Phases doc fuel) :
    Mapping doc fuel doc.endpoints p.afterComponents p.operations p.afterOperations :=
  mapping_of_mapPaths p.runsOperations

/-- Each endpoint is mapped once, and they stay in their order. -/
theorem Mapping.endpoints {es : List Endpoint} {operations : List TaggedOperation}
    (h : Mapping doc fuel es s operations s') : List.Forall₂ (MappedFrom doc fuel) es operations := by
  induction h with
  | done => exact .nil
  | passed _ _ ih => exact ih
  | mapped hone _ ih => exact .cons ⟨rfl, rfl, _, _, hone⟩ ih

end Resolve

end ClientGen
