import ClientGen.Build.Model
import ClientGen.Proofs.Run.Basic

/-
  ClientGen.Proofs.Fuel.Extend — more fuel changes nothing but running out.

  `Extends x y`: wherever `x` does not run out of fuel, `y` ends as `x` does, in the same session.
  It passes through sequences (`Extends.bind`), so it holds of every function on schemas when it
  holds of how the schemas inside are resolved, and by induction of resolving with more fuel
  (`resolveAt_extends`). A build that did not run out is the build for every larger fuel
  (`build_stable`).
-/

namespace ClientGen.Resolve

variable {α β : Type}

def Extends (x y : Resolve α) : Prop := ∀ s, (∃ s', RunsOut x s s') ∨ y s = x s

namespace Extends

theorem refl (x : Resolve α) : Extends x x := fun _ => .inr rfl

theorem bind {x y : Resolve α} {f g : α → Resolve β} (h : Extends x y) (hf : ∀ a, Extends (f a) (g a)) :
    Extends (x >>= f) (y >>= g) := by
  intro s
  rcases h s with ⟨s', hx⟩ | hxy
  · exact .inl ⟨s', runsOut_bind.mpr (.inl hx)⟩
  · cases hx : x s with
    | ok a t =>
      rcases hf a t with ⟨s', hfa⟩ | hfg
      · exact .inl ⟨s', runsOut_bind.mpr (.inr ⟨a, t, hx, hfa⟩)⟩
      · right
        show EStateM.bind y g s = EStateM.bind x f s
        simp only [EStateM.bind, hxy, hx, hfg]
    | error e t =>
      right
      show EStateM.bind y g s = EStateM.bind x f s
      simp only [EStateM.bind, hxy, hx]

theorem runs {x y : Resolve α} {s s' : Session} {a : α} (h : Extends x y) (hx : Runs x s a s') : Runs y s a s' := by
  rcases h s with ⟨t, hout⟩ | hxy
  · cases hout.symm.trans hx
  · exact hxy.trans hx

end Extends

/-- Every schema is resolved as before, unless that ran out. -/
def ExtendsAll (r r' : Resolver) : Prop := ∀ sch name position, Extends (r sch name position) (r' sch name position)

variable {r r' : Resolver}

/-! ## Inside a schema -/

theorem declaring_extends {x y : Resolve (Declaration × List Declaration)} (h : Extends x y) (name : String)
    (sch : Schema) : Extends (declaring name sch x) (declaring name sch y) := by
  refine .bind (.refl _) fun fresh => ?_
  cases fresh with
  | true => exact .bind h fun _ => .refl _
  | false => exact .refl _

theorem structFields_extends (h : ExtendsAll r r') (isRequired : String → Bool) (parent : String) (position : Position)
    (properties : List (String × Schema)) :
    Extends (structFields r isRequired parent position properties)
      (structFields r' isRequired parent position properties) := by
  induction properties with
  | nil => exact .refl _
  | cons e rest ih => exact .bind (h _ _ _) fun _ => .bind ih fun _ => .refl _

theorem sumVariants_extends (h : ExtendsAll r r') (name : String) (number : Nat) (labels : NameSet)
    (branches : List Schema) :
    Extends (sumVariants r name number labels branches) (sumVariants r' name number labels branches) := by
  induction branches generalizing number labels with
  | nil => exact .refl _
  | cons branch rest ih => exact .bind (h _ _ _) fun _ => .bind (ih _ _) fun _ => .refl _

theorem partFields_extends (h : ExtendsAll r r') (sch : Schema) (name : String) (number : Nat) (seen : List String)
    (parts : List Part) : Extends (partFields r sch name number seen parts) (partFields r' sch name number seen parts) := by
  induction parts generalizing number seen with
  | nil => exact .refl _
  | cons part rest ih =>
    cases part with
    | dangling reference => exact .bind (.refl _) fun _ => ih _ _
    | schema branch =>
      simp only [partFields]
      split
      · exact .bind (structFields_extends h _ _ _ _) fun _ => .bind (ih _ _) fun _ => .refl _
      · exact .bind (.refl _) fun _ => ih _ _

theorem object_extends (h : ExtendsAll r r') (sch : Schema) (name : String) :
    Extends (object r sch name) (object r' sch name) := by
  unfold object
  split
  · unfold freeFormMap
    refine declaring_extends ?_ name sch
    dsimp only
    split
    · exact .refl _
    · split
      · exact .refl _
      · exact .bind (h _ _ _) fun _ => .refl _
  · exact declaring_extends (.bind (structFields_extends h _ _ _ _) fun _ => .refl _) name sch

theorem mergeAllOf_extends (h : ExtendsAll r r') (doc : Document) (sch : Schema) (branches : List Schema)
    (name : String) : Extends (mergeAllOf doc r sch branches name) (mergeAllOf doc r' sch branches name) :=
  declaring_extends (.bind (partFields_extends h _ _ _ _ _) fun _ => .refl _) name sch

theorem step_extends (h : ExtendsAll r r') (doc : Document) : ExtendsAll (step doc r) (step doc r') := by
  intro sch name position
  unfold step
  split
  · exact .refl _
  · exact .refl _
  · exact .refl _
  · exact .refl _
  · exact .bind (h _ _ _) fun _ => .refl _
  · exact object_extends h sch name
  · exact declaring_extends (.bind (sumVariants_extends h _ _ _ _) fun _ => .refl _) name sch
  · exact .refl _
  · split
    · exact mergeAllOf_extends h doc sch _ name
    · exact h _ _ _
    · exact mergeAllOf_extends h doc sch _ name
    · exact .refl _
  · exact .refl _

theorem resolveAt_extends (doc : Document) {fuel more : Nat} (h : fuel ≤ more) :
    ExtendsAll (resolveAt doc fuel) (resolveAt doc more) := by
  induction fuel generalizing more with
  | zero => exact fun _ _ _ s => .inl ⟨s, rfl⟩
  | succ fuel ih =>
    obtain ⟨more, rfl⟩ : ∃ n, more = n + 1 := ⟨more - 1, by omega⟩
    exact step_extends (ih (by omega)) doc

/-! ## Components, payloads and operations -/

section Fuel

variable {doc : Document} {fuel more : Nat}

theorem declareComponent_extends (h : fuel ≤ more) (key : String) (sch : Schema) :
    Extends (declareComponent doc fuel key sch) (declareComponent doc more key sch) := by
  have hr := resolveAt_extends doc h sch (Name.identifier key) .component
  simp only [declareComponent]
  split
  · exact .bind hr fun _ => .refl _
  · refine .bind (.refl _) fun fresh => ?_
    cases fresh with
    | true => exact .bind hr fun _ => .refl _
    | false => exact .refl _

theorem declareNamed_extends (h : fuel ≤ more) (name : String) (sch : Schema) :
    Extends (declareNamed doc fuel name sch) (declareNamed doc more name sch) := by
  unfold declareNamed
  split
  · exact .refl _
  · split
    · exact .bind (resolveAt_extends doc h _ _ _) fun _ => .refl _
    · exact .bind (resolveAt_extends doc h _ _ _) fun _ => .refl _

theorem declareResponseComponent_extends (h : fuel ≤ more) (key : String) (spec : ResponseSpec) :
    Extends (declareResponseComponent doc fuel key spec) (declareResponseComponent doc more key spec) := by
  simp only [declareResponseComponent]
  split
  · exact declareNamed_extends h _ _
  · exact .refl _

theorem requestBody_extends (h : fuel ≤ more) (operationName : String) (op : Operation) :
    Extends (requestBody doc fuel operationName op) (requestBody doc more operationName op) := by
  simp only [requestBody]
  split
  · exact .refl _
  · exact .bind (declareNamed_extends h _ _) fun _ => .refl _

theorem responseType_extends (h : fuel ≤ more) (operationName key : String) (spec : RefOr ResponseSpec) :
    Extends (responseType doc fuel operationName key spec) (responseType doc more operationName key spec) := by
  unfold responseType
  split
  · exact .refl _
  · split
    · exact .refl _
    · split
      · exact .refl _
      · exact .bind (declareNamed_extends h _ _) fun _ => .refl _

theorem responses_extends (h : fuel ≤ more) (operationId operationName : String)
    (rs : List (String × RefOr ResponseSpec)) :
    Extends (responses doc fuel operationId operationName rs) (responses doc more operationId operationName rs) := by
  induction rs with
  | nil => exact .refl _
  | cons e rest ih =>
    refine .bind ?_ fun _ => .bind ih fun _ => .refl _
    simp only [response]
    split
    · exact .refl _
    · exact .bind (responseType_extends h _ _ _) fun _ => .refl _

theorem mapOperation_extends (h : fuel ≤ more) (httpMethod : HttpMethod) (path : String) (op : Operation)
    (ofPath : List (RefOr ParameterSpec)) :
    Extends (mapOperation doc fuel httpMethod path op ofPath) (mapOperation doc more httpMethod path op ofPath) :=
  .bind (.refl _) fun _ => .bind (.refl _) fun _ => .bind (.refl _) fun _ =>
    .bind (requestBody_extends h _ _) fun _ => .bind (responses_extends h _ _ _) fun _ => .refl _

/-! ## The build -/

theorem declareComponents_extends (h : fuel ≤ more) (schemas : KeyMap Schema) :
    Extends (declareComponents doc fuel schemas) (declareComponents doc more schemas) := by
  induction schemas with
  | nil => exact .refl _
  | cons e rest ih => exact .bind (declareComponent_extends h _ _) fun _ => .bind ih fun _ => .refl _

theorem mapPathOperations_extends (h : fuel ≤ more) (path : String) (item : PathItem)
    (ops : List (HttpMethod × Operation)) :
    Extends (mapPathOperations doc fuel path item ops) (mapPathOperations doc more path item ops) := by
  induction ops with
  | nil => exact .refl _
  | cons e rest ih => exact .bind (mapOperation_extends h _ _ _ _) fun _ => .bind ih fun _ => .refl _

theorem mapPaths_extends (h : fuel ≤ more) (paths : KeyMap PathItem) :
    Extends (mapPaths doc fuel paths) (mapPaths doc more paths) := by
  induction paths with
  | nil => exact .refl _
  | cons e rest ih =>
    simp only [mapPaths]
    split
    · exact .bind (.refl _) fun _ => ih
    · exact .bind (mapPathOperations_extends h _ _ _) fun _ => .bind ih fun _ => .refl _

theorem declareResponses_extends (h : fuel ≤ more) (keys : List String) :
    Extends (declareResponses doc fuel keys) (declareResponses doc more keys) := by
  induction keys with
  | nil => exact .refl _
  | cons key rest ih =>
    simp only [declareResponses]
    split
    · exact .bind (declareResponseComponent_extends h _ _) fun _ => .bind ih fun _ => .refl _
    · exact .bind (.refl _) fun _ => .bind ih fun _ => .refl _

theorem groupings_extends (h : fuel ≤ more) (operations : List TaggedOperation) (left : Unclaimed)
    (tags : List String) : Extends (groupings doc fuel operations left tags) (groupings doc more operations left tags) := by
  induction tags generalizing left with
  | nil => exact .refl _
  | cons tag rest ih =>
    refine .bind ?_ fun _ => .bind (ih _) fun _ => .refl _
    exact .bind (declareResponses_extends h _) fun _ => .refl _

theorem buildModel_extends (h : fuel ≤ more) (config : Config) :
    Extends (buildModel doc config fuel) (buildModel doc config more) :=
  .bind (.refl _) fun _ => .bind (declareComponents_extends h _) fun _ => .bind (mapPaths_extends h _) fun _ =>
    .bind (groupings_extends h _ _ _) fun _ => .bind (declareResponses_extends h _) fun _ => .refl _

end Fuel

end ClientGen.Resolve
