import ClientGen.Build.Model
import ClientGen.Proofs.Run.Basic

/-
  ClientGen.Proofs.Run.Composed — what holds of every computation that the primitive steps make up.

  A build claims names, records declarations, reports, looks at its session and may run out of
  fuel. All else puts such steps in sequence. So a property of computations that the steps have
  and that sequences keep (`Compositional`) holds of every function on schemas when it holds of
  how the schemas inside are resolved, and by induction of resolving with any fuel
  (`Stepwise.resolveAt`). From there it goes up to the groupings and, if refusing a response
  key has it too, to the whole build (`Compositional.buildModel`).
  Only query parameters look at the session, so what does not come by them needs the property of
  the other steps alone (`Stepwise`).
  What depends on the names that are claimed needs the claims of such names only (`Claimwise`), if
  the names inside a schema are such names when its own is (`PassedOn`).
-/

namespace ClientGen.Resolve

/-- The primitive steps have the property but for looking at the session, for claims of names outside `P`
    and for reports of a collision, which only claims make. Sequences keep it. -/
structure Claimwise (P : String → Prop) (Q : ∀ {α : Type}, Resolve α → Prop) : Prop where
  answer : ∀ {α : Type} (a : α), Q (pure a)
  sequence : ∀ {α β : Type} {x : Resolve α} {f : α → Resolve β}, Q x → (∀ a, Q (f a)) → Q (x >>= f)
  reports : ∀ ds, (∀ d ∈ ds, d.kind ≠ .nameCollision) → Q (reportAll ds)
  claims : ∀ {name}, P name → ∀ origin, Q (claim name origin)
  records : ∀ d, Q (finish d)
  runsOut : ∀ {α : Type}, Q (throw .outOfFuel : Resolve α)

/-- All primitive steps but looking at the session have the property, and sequences keep it. -/
structure Stepwise (Q : ∀ {α : Type}, Resolve α → Prop) : Prop where
  answer : ∀ {α : Type} (a : α), Q (pure a)
  sequence : ∀ {α β : Type} {x : Resolve α} {f : α → Resolve β}, Q x → (∀ a, Q (f a)) → Q (x >>= f)
  reports : ∀ ds, Q (reportAll ds)
  claims : ∀ name origin, Q (claim name origin)
  records : ∀ d, Q (finish d)
  runsOut : ∀ {α : Type}, Q (throw .outOfFuel : Resolve α)

/-- The primitive steps have the property, and sequences keep it. -/
structure Compositional (Q : ∀ {α : Type}, Resolve α → Prop) : Prop extends Stepwise Q where
  session : Q (get : Resolve Session)

/-! ## Inside a schema -/

/-- What is inside a schema with the name is resolved with the property. -/
structure Inside (Q : ∀ {α : Type}, Resolve α → Prop) (resolve : Resolver) (name : String) : Prop where
  property : ∀ sch key position, Q (resolve sch (name ++ Name.identifier key) position)
  option : ∀ sch (number : Nat), Q (resolve sch (name ++ "Option" ++ toString number) .nested)
  value : ∀ sch, Q (resolve sch (name ++ "Value") .nested)

/-- A property of the names that are passed on to what is inside a schema with such a name. -/
structure PassedOn (P : String → Prop) : Prop where
  property : ∀ {name} key, P name → P (name ++ Name.identifier key)
  option : ∀ {name} (number : Nat), P name → P (name ++ "Option" ++ toString number)
  value : ∀ {name}, P name → P (name ++ "Value")
  singular : ∀ {name}, P name → P (Name.singular name)

theorem PassedOn.inside {P : String → Prop} {Q : ∀ {α : Type}, Resolve α → Prop} {resolve : Resolver} {name : String}
    (hP : PassedOn P) (h : ∀ sch {name} position, P name → Q (resolve sch name position)) (hname : P name) :
    Inside Q resolve name where
  property sch key position := h sch position (hP.property key hname)
  option sch number := h sch .nested (hP.option number hname)
  value sch := h sch .nested (hP.value hname)

/-- The schema declares a type under its name with others inside: an object, a sum type or a merge. An `allOf`
    is merged in a component, and outside of one if it has several branches and is no property of a merge. -/
def DeclaresParent (sch : Schema) (position : Position) : Prop :=
  sch.shape = .object ∨ (∃ branches, sch.shape = .oneOf branches) ∨
    ∃ branches, sch.shape = .allOf branches ∧
      (position = .component ∨ position = .nested ∧ ∀ branch, branches ≠ [branch])

/-- All that an enum reports by itself is about its values. -/
theorem variantsOf_kinds {name : String} {scalar : Scalar} {names : NameSet} {values : List Json} :
    ∀ d ∈ (variantsOf name scalar names values).2, d.kind = .enumValueMismatch := by
  induction values generalizing names with
  | nil => exact List.forall_mem_nil _
  | cons v rest ih =>
    simp only [variantsOf]
    split
    · exact ih
    · exact List.forall_mem_cons.mpr ⟨rfl, ih⟩

namespace Claimwise

variable {P : String → Prop} {Q : ∀ {α : Type}, Resolve α → Prop} {doc : Document} {resolve : Resolver} {fuel : Nat}
  {name : String}

theorem report (hQ : Claimwise P Q) {d : Diagnostic} (hd : d.kind ≠ .nameCollision) : Q (Resolve.report d) :=
  hQ.reports [d] (by simpa using hd)

theorem declaring (hQ : Claimwise P Q) (hname : P name) {build : Resolve (Declaration × List Declaration)}
    (h : Q build) (sch : Schema) : Q (Resolve.declaring name sch build) := by
  refine hQ.sequence (hQ.claims hname _) fun fresh => ?_
  cases fresh with
  | true => exact hQ.sequence h fun _ => hQ.sequence (hQ.records _) fun _ => hQ.answer _
  | false => exact hQ.answer _

theorem structFields (hQ : Claimwise P Q) {position : Position}
    (h : ∀ sch key, Q (resolve sch (name ++ Name.identifier key) position)) (isRequired : String → Bool)
    (properties : List (String × Schema)) : Q (Resolve.structFields resolve isRequired name position properties) := by
  induction properties with
  | nil => exact hQ.answer _
  | cons e rest ih => exact hQ.sequence (h _ _) fun _ => hQ.sequence ih fun _ => hQ.answer _

theorem sumVariants (hQ : Claimwise P Q)
    (h : ∀ sch (number : Nat), Q (resolve sch (name ++ "Option" ++ toString number) .nested)) (number : Nat) (labels : NameSet)
    (branches : List Schema) : Q (Resolve.sumVariants resolve name number labels branches) := by
  induction branches generalizing number labels with
  | nil => exact hQ.answer _
  | cons branch rest ih => exact hQ.sequence (h _ _) fun _ => hQ.sequence (ih _ _) fun _ => hQ.answer _

theorem partFields (hQ : Claimwise P Q) (h : ∀ sch key, Q (resolve sch (name ++ Name.identifier key) .allOfProperty))
    (sch : Schema) (number : Nat) (seen : List String) (parts : List Part) :
    Q (Resolve.partFields resolve sch name number seen parts) := by
  induction parts generalizing number seen with
  | nil => exact hQ.answer _
  | cons part rest ih =>
    cases part with
    | dangling reference => exact hQ.sequence (hQ.report nofun) fun _ => ih _ _
    | schema branch =>
      simp only [Resolve.partFields]
      split
      · exact hQ.sequence (hQ.structFields h _ _) fun _ => hQ.sequence (ih _ _) fun _ => hQ.answer _
      · exact hQ.sequence (hQ.report nofun) fun _ => ih _ _

theorem enumeration (hQ : Claimwise P Q) (hname : P (Name.singular name)) (sch : Schema) :
    Q (Resolve.enumeration sch name) := by
  refine hQ.declaring hname ?_ sch
  dsimp only
  split
  · refine hQ.sequence (hQ.reports _ ?_) fun _ => hQ.answer _
    intro d hd
    rw [variantsOf_kinds d hd]
    decide
  · exact hQ.sequence (hQ.report nofun) fun _ => hQ.answer _

/-- What is built for a schema that declares a parent is built under its name, with the property. -/
theorem step_parent (hQ : Claimwise P Q) (doc : Document) (h : Inside Q resolve name) {sch : Schema}
    {position : Position} (hparent : DeclaresParent sch position) :
    ∃ build, Resolve.step doc resolve sch name position = Resolve.declaring name sch build ∧ Q build := by
  have hmerge (branches : List Schema) :
      ∃ build, mergeAllOf doc resolve sch branches name = Resolve.declaring name sch build ∧ Q build :=
    ⟨_, rfl, hQ.sequence (hQ.partFields (fun _ _ => h.property _ _ _) _ _ _ _) fun _ => hQ.answer _⟩
  rcases hparent with hshape | ⟨branches, hshape⟩ | ⟨branches, hshape, hposition⟩ <;> simp only [Resolve.step, hshape]
  · unfold object freeFormMap
    split
    · refine ⟨_, rfl, ?_⟩
      dsimp only
      split
      · exact hQ.sequence (hQ.answer _) fun _ => hQ.answer _
      · split
        · exact hQ.sequence (hQ.answer _) fun _ => hQ.answer _
        · exact hQ.sequence (h.value _) fun _ => hQ.answer _
    · exact ⟨_, rfl, hQ.sequence (hQ.structFields (fun _ _ => h.property _ _ _) _ _) fun _ => hQ.answer _⟩
  · exact ⟨_, rfl, hQ.sequence (hQ.sumVariants h.option _ _ _) fun _ => hQ.answer _⟩
  · rcases hposition with rfl | ⟨rfl, hmany⟩
    · exact hmerge branches
    · split
      · exact hmerge _
      · exact absurd rfl (hmany _)
      · exact hmerge _
      · rename_i hposition _
        cases hposition

theorem step (hQ : Claimwise P Q) (hP : PassedOn P)
    (h : ∀ sch {name} position, P name → Q (resolve sch name position)) (hname : P name) (sch : Schema)
    (position : Position) : Q (Resolve.step doc resolve sch name position) := by
  by_cases hparent : DeclaresParent sch position
  · obtain ⟨build, heq, hbuild⟩ := hQ.step_parent doc (hP.inside h hname) hparent
    rw [heq]
    exact hQ.declaring hname hbuild sch
  · unfold Resolve.step
    split
    · exact hQ.answer _
    · exact hQ.enumeration (hP.singular hname) sch
    · exact hQ.answer _
    · exact hQ.answer _
    · exact hQ.sequence (h _ _ (hP.singular hname)) fun _ => hQ.answer _
    · exact absurd (.inl ‹_›) hparent
    · exact absurd (.inr (.inl ⟨_, ‹_›⟩)) hparent
    · exact hQ.sequence (hQ.report nofun) fun _ => hQ.answer _
    · split
      · exact absurd (.inr (.inr ⟨_, ‹_›, .inl rfl⟩)) hparent
      · exact h _ _ hname
      · exact absurd (.inr (.inr ⟨_, ‹_›, .inr ⟨rfl, ‹_›⟩⟩)) hparent
      · exact hQ.sequence (hQ.report nofun) fun _ => hQ.answer _
    · exact hQ.sequence (hQ.report nofun) fun _ => hQ.answer _

theorem resolveAt (hQ : Claimwise P Q) (hP : PassedOn P) (doc : Document) (fuel : Nat) (hname : P name) (sch : Schema)
    (position : Position) : Q (Resolve.resolveAt doc fuel sch name position) := by
  induction fuel generalizing sch name position with
  | zero => exact hQ.runsOut
  | succ fuel ih => exact hQ.step hP (fun sch _ position hname => ih hname sch position) hname sch position

end Claimwise

namespace Stepwise

variable {Q : ∀ {α : Type}, Resolve α → Prop} {doc : Document} {resolve : Resolver} {fuel : Nat}

theorem claimwise (hQ : Stepwise Q) : Claimwise (fun _ => True) Q :=
  { hQ with
    reports := fun ds _ => hQ.reports ds
    claims := fun {name} _ origin => hQ.claims name origin }

theorem report (hQ : Stepwise Q) (d : Diagnostic) : Q (Resolve.report d) := hQ.reports [d]

theorem declare (hQ : Stepwise Q) (d : Declaration) : Q (Resolve.declare d) := by
  refine hQ.sequence (hQ.claims _ _) fun fresh => ?_
  cases fresh with
  | true => exact hQ.sequence (hQ.records _) fun _ => hQ.answer _
  | false => exact hQ.answer _

theorem structFields (hQ : Stepwise Q) (h : ∀ sch name position, Q (resolve sch name position))
    (isRequired : String → Bool) (parent : String) (position : Position) (properties : List (String × Schema)) :
    Q (Resolve.structFields resolve isRequired parent position properties) :=
  hQ.claimwise.structFields (fun _ _ => h _ _ _) _ _

theorem sumVariants (hQ : Stepwise Q) (h : ∀ sch name position, Q (resolve sch name position)) (name : String)
    (number : Nat) (labels : NameSet) (branches : List Schema) :
    Q (Resolve.sumVariants resolve name number labels branches) :=
  hQ.claimwise.sumVariants (fun _ _ => h _ _ _) _ _ _

theorem partFields (hQ : Stepwise Q) (h : ∀ sch name position, Q (resolve sch name position)) (sch : Schema)
    (name : String) (number : Nat) (seen : List String) (parts : List Part) :
    Q (Resolve.partFields resolve sch name number seen parts) :=
  hQ.claimwise.partFields (fun _ _ => h _ _ _) _ _ _ _

theorem resolveAt (hQ : Stepwise Q) (doc : Document) (fuel : Nat) (sch : Schema) (name : String)
    (position : Position) : Q (Resolve.resolveAt doc fuel sch name position) :=
  hQ.claimwise.resolveAt ⟨fun _ h => h, fun _ h => h, id, id⟩ doc fuel trivial sch position

/-! ## Components and payloads -/

theorem declareComponent (hQ : Stepwise Q) (key : String) (sch : Schema) :
    Q (Resolve.declareComponent doc fuel key sch) := by
  have hr := hQ.resolveAt doc fuel sch (Name.identifier key) .component
  simp only [Resolve.declareComponent]
  split
  · exact hQ.sequence hr fun _ => hQ.answer _
  · refine hQ.sequence (hQ.claims _ _) fun fresh => ?_
    cases fresh with
    | true => exact hQ.sequence hr fun _ => hQ.sequence (hQ.records _) fun _ => hQ.answer _
    | false => exact hQ.answer _

theorem declareNamed (hQ : Stepwise Q) (name : String) (sch : Schema) :
    Q (Resolve.declareNamed doc fuel name sch) := by
  have hrest (r : Resolution) : Q (do
      if r.type = .named name then return r.declarations
      let declared ← declareAlias name r.type sch.documentation
      return declared.toList ++ r.declarations) := by
    split
    · exact hQ.answer _
    · exact hQ.sequence (hQ.declare _) fun _ => hQ.answer _
  unfold Resolve.declareNamed
  split
  · exact hQ.sequence (hQ.answer _) hrest
  · split
    · exact hQ.sequence (hQ.resolveAt doc fuel _ _ _) hrest
    · exact hQ.sequence (hQ.resolveAt doc fuel _ _ _) hrest

theorem declareResponseComponent (hQ : Stepwise Q) (key : String) (spec : ResponseSpec) :
    Q (Resolve.declareResponseComponent doc fuel key spec) := by
  simp only [Resolve.declareResponseComponent]
  split
  · exact hQ.declareNamed _ _
  · exact hQ.sequence (hQ.declare _) fun _ => hQ.answer _

theorem requestBody (hQ : Stepwise Q) (operationName : String) (op : Operation) :
    Q (Resolve.requestBody doc fuel operationName op) := by
  simp only [Resolve.requestBody]
  split
  · exact hQ.answer _
  · exact hQ.sequence (hQ.declareNamed _ _) fun _ => hQ.answer _

theorem responseType (hQ : Stepwise Q) (operationName key : String) (r : RefOr ResponseSpec) :
    Q (Resolve.responseType doc fuel operationName key r) := by
  unfold Resolve.responseType
  split
  · exact hQ.answer _
  · split
    · exact hQ.answer _
    · split
      · exact hQ.answer _
      · exact hQ.sequence (hQ.declareNamed _ _) fun _ => hQ.answer _

/-- Refusing a response key that is no status must have the property as well. -/
theorem responses (hQ : Stepwise Q)
    (hrefuse : ∀ operation key, Q (throw (.invalidStatus operation key) : Resolve (MappedResponse × List Declaration)))
    (operationId operationName : String) (rs : List (String × RefOr ResponseSpec)) :
    Q (Resolve.responses doc fuel operationId operationName rs) := by
  induction rs with
  | nil => exact hQ.answer _
  | cons e rest ih =>
    refine hQ.sequence ?_ fun _ => hQ.sequence ih fun _ => hQ.answer _
    simp only [Resolve.response]
    split
    · exact hrefuse _ _
    · exact hQ.sequence (hQ.responseType _ _ _) fun _ => hQ.answer _

/-! ## Lists of them -/

theorem declareAll (hQ : Stepwise Q) (ds : List TypeDecl) : Q (Resolve.declareAll ds) := by
  induction ds with
  | nil => exact hQ.answer _
  | cons d rest ih => exact hQ.sequence (hQ.declare _) fun _ => hQ.sequence ih fun _ => hQ.answer _

theorem declareComponents (hQ : Stepwise Q) (schemas : KeyMap Schema) :
    Q (Resolve.declareComponents doc fuel schemas) := by
  induction schemas with
  | nil => exact hQ.answer _
  | cons e rest ih => exact hQ.sequence (hQ.declareComponent _ _) fun _ => hQ.sequence ih fun _ => hQ.answer _

theorem declareResponses (hQ : Stepwise Q) (keys : List String) : Q (Resolve.declareResponses doc fuel keys) := by
  induction keys with
  | nil => exact hQ.answer _
  | cons key rest ih =>
    simp only [Resolve.declareResponses]
    split
    · exact hQ.sequence (hQ.declareResponseComponent _ _) fun _ => hQ.sequence ih fun _ => hQ.answer _
    · exact hQ.sequence (hQ.answer _) fun _ => hQ.sequence ih fun _ => hQ.answer _

theorem groupings (hQ : Stepwise Q) (operations : List TaggedOperation) (left : Unclaimed)
    (tags : List String) : Q (Resolve.groupings doc fuel operations left tags) := by
  induction tags generalizing left with
  | nil => exact hQ.answer _
  | cons tag rest ih =>
    refine hQ.sequence ?_ fun _ => hQ.sequence (ih _) fun _ => hQ.answer _
    exact hQ.sequence (hQ.declareResponses _) fun _ => hQ.answer _

end Stepwise

namespace Compositional

variable {Q : ∀ {α : Type}, Resolve α → Prop} {doc : Document} {fuel : Nat}

theorem queryParams (hQ : Compositional Q) (operationId operationName : String) (parameters : List ParameterSpec) :
    Q (Resolve.queryParams doc operationId operationName parameters) := by
  refine hQ.sequence (hQ.reports _) fun _ => ?_
  split
  · exact hQ.answer _
  · exact hQ.sequence hQ.session fun _ => hQ.sequence (hQ.declare _) fun _ => hQ.answer _

/-! ## Operations

  These refuse a response key that is no status, so that step must have the property as well. -/

section Refusing

variable (hQ : Compositional Q) (hrefuse : ∀ operation key, Q (throw (.invalidStatus operation key) : Resolve (MappedResponse × List Declaration)))
include hQ hrefuse

theorem mapOperation (httpMethod : HttpMethod) (path : String) (op : Operation)
    (ofPath : List (RefOr ParameterSpec)) : Q (Resolve.mapOperation doc fuel httpMethod path op ofPath) := by
  refine hQ.sequence (hQ.reports _) fun _ => hQ.sequence (hQ.reports _) fun _ => ?_
  refine hQ.sequence (hQ.queryParams _ _ _) fun _ => hQ.sequence (hQ.requestBody _ _) fun _ => ?_
  exact hQ.sequence (hQ.responses hrefuse _ _ _) fun _ => hQ.answer _

theorem mapPathOperations (path : String) (item : PathItem) (ops : List (HttpMethod × Operation)) :
    Q (Resolve.mapPathOperations doc fuel path item ops) := by
  induction ops with
  | nil => exact hQ.answer _
  | cons e rest ih => exact hQ.sequence (hQ.mapOperation hrefuse _ _ _ _) fun _ => hQ.sequence ih fun _ => hQ.answer _

theorem mapPaths (paths : KeyMap PathItem) : Q (Resolve.mapPaths doc fuel paths) := by
  induction paths with
  | nil => exact hQ.answer _
  | cons e rest ih =>
    simp only [Resolve.mapPaths]
    split
    · exact hQ.sequence (hQ.report _) fun _ => ih
    · exact hQ.sequence (hQ.mapPathOperations hrefuse _ _ _) fun _ => hQ.sequence ih fun _ => hQ.answer _

theorem buildModel (config : Config) : Q (Resolve.buildModel doc config fuel) := by
  refine hQ.sequence (hQ.declareAll _) fun _ => hQ.sequence (hQ.declareComponents _) fun _ => ?_
  refine hQ.sequence (hQ.mapPaths hrefuse _) fun _ => hQ.sequence (hQ.groupings _ _ _) fun _ => ?_
  exact hQ.sequence (hQ.declareResponses _) fun _ => hQ.answer _

end Refusing

end Compositional

end ClientGen.Resolve
