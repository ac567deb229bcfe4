import ClientGen.Proofs.Run.Basic
import ClientGen.Resolve.Schema

/-
  ClientGen.Proofs.Run.Schema — what resolving a schema can do, said once for every function.

  `Stepped` lists the ways in which one schema resolves, given how the schemas inside it do: a
  case for each shape, with what holds of the schema there. Everything that declares a type
  goes through `declaring`; `Built` lists what is built under the claimed name.
-/

namespace ClientGen.Resolve

variable {doc : Document} {resolve : Resolver} {s s' : Session}

/-! ## Lists of schemas -/

theorem runs_structFields_cons {isRequired : String → Bool} {parent : String} {position : Position} {key : String}
    {property : Schema} {rest : List (String × Schema)} {fields : List Field} {ds : List Declaration}
    (h : Runs (structFields resolve isRequired parent position ((key, property) :: rest)) s (fields, ds) s') :
    ∃ r t more moreDs, Runs (resolve property (parent ++ Name.identifier key) position) s r t ∧
      Runs (structFields resolve isRequired parent position rest) t (more, moreDs) s' ∧
      fields = ⟨Name.identifier key, r.type, !isRequired key, key, property.documentation⟩ :: more ∧
      ds = r.declarations ++ moreDs := by
  simp only [structFields, runs_bind, runs_pure] at h
  obtain ⟨r, t, hr, ⟨more, moreDs⟩, _, hrest, h, rfl⟩ := h
  cases h
  exact ⟨r, t, more, moreDs, hr, hrest, rfl, rfl⟩

theorem runs_sumVariants_cons {name : String} {number : Nat} {labels : NameSet} {branch : Schema}
    {rest : List Schema} {variants : List SumVariant} {ds : List Declaration}
    (h : Runs (sumVariants resolve name number labels (branch :: rest)) s (variants, ds) s') :
    ∃ r t more moreDs, Runs (resolve branch (name ++ "Option" ++ toString number) .nested) s r t ∧
      Runs (sumVariants resolve name (number + 1) (labels.claim (accessorLabel r.type)).2 rest) t (more, moreDs) s' ∧
      variants = ⟨(labels.claim (accessorLabel r.type)).1, r.type⟩ :: more ∧ ds = r.declarations ++ moreDs := by
  simp only [sumVariants, runs_bind, runs_pure] at h
  obtain ⟨r, t, hr, ⟨more, moreDs⟩, _, hrest, h, rfl⟩ := h
  cases h
  exact ⟨r, t, more, moreDs, hr, hrest, rfl, rfl⟩

/-- The properties that a part adds: those whose keys no earlier part had. -/
def newProperties (branch : Schema) (seen : List String) : List (String × Schema) :=
  branch.propertyList.filter fun (key, _) => !seen.contains key

/-- A part either adds the fields of its new properties or is reported and adds nothing. -/
theorem runs_partFields_cons {sch : Schema} {name : String} {number : Nat} {seen : List String} {part : Part}
    {rest : List Part} {fields : List Field} {ds : List Declaration}
    (h : Runs (partFields resolve sch name number seen (part :: rest)) s (fields, ds) s') :
    (∃ t, t.registry = s.registry ∧ (∀ branch, part = .schema branch → branch.propertyList = []) ∧
        Runs (partFields resolve sch name (number + 1) seen rest) t (fields, ds) s') ∨
      ∃ branch t own ownDs more moreDs, part = .schema branch ∧
        Runs (structFields resolve (fun key => branch.required.contains key || sch.required.contains key) name
          .allOfProperty (newProperties branch seen)) s (own, ownDs) t ∧
        Runs (partFields resolve sch name (number + 1) ((newProperties branch seen).map (·.1) ++ seen) rest) t
          (more, moreDs) s' ∧
        fields = own ++ more ∧ ds = ownDs ++ moreDs := by
  cases part with
  | dangling reference =>
    simp only [partFields, runs_bind, runs_report] at h
    obtain ⟨_, t, rfl, h⟩ := h
    refine .inl ⟨_, ?_, ?_, h⟩
    · rfl
    · rintro _ ⟨⟩
  | schema branch =>
    simp only [partFields] at h
    split at h
    · simp only [runs_bind, runs_pure] at h
      obtain ⟨⟨own, ownDs⟩, t, hown, ⟨more, moreDs⟩, _, hrest, h, rfl⟩ := h
      cases h
      exact .inr ⟨branch, t, own, ownDs, more, moreDs, rfl, hown, hrest, rfl, rfl⟩
    · rename_i hprops
      simp only [runs_bind, runs_report] at h
      obtain ⟨_, t, rfl, h⟩ := h
      refine .inl ⟨_, ?_, ?_, h⟩
      · rfl
      · rintro _ ⟨⟩
        simpa [Schema.hasProperties] using hprops

/-! ## What is built under a name -/

/-- The declaration and the nested ones that are built for a schema once `name` is claimed. -/
inductive Built (doc : Document) (resolve : Resolver) (sch : Schema) (name : String) (s : Session) :
    Declaration → List Declaration → Session → Prop
  | enumeration {scalar : Scalar} {s' : Session} : enumScalar? sch = some scalar → s'.registry = s.registry →
      Built doc resolve sch name s (.enumeration ⟨name, scalar,
        sortByText (·.name) (variantsOf name scalar .empty sch.enumList).1, sch.documentation⟩) [] s'
  /-- An enum that has no variants. -/
  | opaqueEnum {t : TypeRef} {s' : Session} : t.names = [] → s'.registry = s.registry →
      Built doc resolve sch name s (.type (.aliasOf name t sch.documentation)) [] s'
  | opaqueMap : Built doc resolve sch name s (.type ⟨name, .map .any, sch.documentation, false⟩) [] s
  | map {value : Schema} {r : Resolution} {s' : Session} : sch.additionalSchema = some value →
      Runs (resolve value (name ++ "Value") .nested) s r s' →
      Built doc resolve sch name s (.type ⟨name, .map r.type, sch.documentation, false⟩) r.declarations s'
  | struct {fields : List Field} {nested : List Declaration} {s' : Session} :
      Runs (structFields resolve sch.required.contains name .nested sch.propertyList) s (fields, nested) s' →
      Built doc resolve sch name s (.type ⟨name, .struct (sortedFields fields), sch.documentation, false⟩) nested s'
  | sum {branches : List Schema} {variants : List SumVariant} {nested : List Declaration} {s' : Session} :
      sch.oneOf = some branches → Runs (sumVariants resolve name 1 .empty branches) s (variants, nested) s' →
      Built doc resolve sch name s (.sum ⟨name, variants, sch.documentation, false, true⟩) nested s'
  | merged {branches : List Schema} {fields : List Field} {nested : List Declaration} {s' : Session} :
      sch.allOf = some branches →
      Runs (partFields resolve sch name 1 [] (mergeParts doc sch branches)) s (fields, nested) s' →
      Built doc resolve sch name s (.type ⟨name, .struct (sortedFields fields), sch.documentation, false⟩) nested s'

/-- A claimed name stands for what is built, and a name that was taken for what it stood for. -/
inductive Declared (doc : Document) (resolve : Resolver) (sch : Schema) (name : String) (s : Session) :
    Resolution → Session → Prop
  | fresh {d : Declaration} {nested : List Declaration} {t : Session} : name ∉ s.registry.keys →
      Built doc resolve sch name (claimed s name (some sch)) d nested t →
      Declared doc resolve sch name s ⟨.named name, d :: nested⟩ (recorded t d)
  | taken {s' : Session} : Reclaimed name (some sch) s s' → Declared doc resolve sch name s (.of (.named name)) s'

theorem declared_of_runs {sch : Schema} {name : String} {build : Resolve (Declaration × List Declaration)}
    {r : Resolution} (h : Runs (declaring name sch build) s r s')
    (hb : ∀ {a d nested t}, Runs build a (d, nested) t → Built doc resolve sch name a d nested t) :
    Declared doc resolve sch name s r s' := by
  rcases runs_declaring h with ⟨d, nested, t, hn, hbuild, rfl, rfl⟩ | ⟨htaken, rfl⟩
  · exact .fresh hn (hb hbuild)
  · exact .taken htaken

theorem runs_enumeration {sch : Schema} {desired : String} {r : Resolution}
    (h : Runs (enumeration sch desired) s r s') : Declared doc resolve sch (Name.singular desired) s r s' := by
  refine declared_of_runs h fun {a d nested t} hb => ?_
  split at hb
  · simp only [runs_bind, runs_reportAll, runs_pure, Prod.mk.injEq] at hb
    obtain ⟨_, _, rfl, ⟨rfl, rfl⟩, rfl⟩ := hb
    exact .enumeration ‹_› rfl
  · simp only [runs_bind, runs_report, runs_pure, Prod.mk.injEq] at hb
    obtain ⟨_, _, rfl, ⟨rfl, rfl⟩, rfl⟩ := hb
    refine .opaqueEnum ?_ rfl
    split <;> rfl

theorem runs_freeFormMap {sch : Schema} {name : String} {r : Resolution}
    (h : Runs (freeFormMap resolve sch name) s r s') : Declared doc resolve sch name s r s' := by
  refine declared_of_runs h fun {a d nested t} hb => ?_
  have hopaque {a t : Session}
      (hb : Runs (do let value ← pure (Resolution.of .any)
                     return (.type ⟨name, .map value.type, sch.documentation, false⟩, value.declarations))
        a (d, nested) t) : Built doc resolve sch name a d nested t := by
    simp only [runs_bind, runs_pure, Prod.mk.injEq] at hb
    obtain ⟨_, _, ⟨rfl, rfl⟩, ⟨rfl, rfl⟩, rfl⟩ := hb
    exact .opaqueMap
  split at hb
  · exact hopaque hb
  · split at hb
    · exact hopaque hb
    · simp only [runs_bind, runs_pure, Prod.mk.injEq] at hb
      obtain ⟨value, t, hv, ⟨rfl, rfl⟩, rfl⟩ := hb
      exact .map ‹_› hv

theorem runs_object {sch : Schema} {name : String} {r : Resolution} (h : Runs (object resolve sch name) s r s') :
    Declared doc resolve sch name s r s' := by
  unfold object at h
  split at h
  · exact runs_freeFormMap h
  · refine declared_of_runs h fun {a d nested t} hb => ?_
    simp only [runs_bind, runs_pure, Prod.mk.injEq] at hb
    obtain ⟨⟨fields, _⟩, t, hf, ⟨rfl, rfl⟩, rfl⟩ := hb
    exact .struct hf

theorem runs_sumType {sch : Schema} {branches : List Schema} {name : String} {r : Resolution}
    (hs : sch.oneOf = some branches) (h : Runs (sumType resolve sch branches name) s r s') :
    Declared doc resolve sch name s r s' := by
  refine declared_of_runs h fun {a d nested t} hb => ?_
  simp only [runs_bind, runs_pure, Prod.mk.injEq] at hb
  obtain ⟨⟨variants, _⟩, t, hv, ⟨rfl, rfl⟩, rfl⟩ := hb
  exact .sum hs hv

theorem runs_mergeAllOf {sch : Schema} {branches : List Schema} {name : String} {r : Resolution}
    (hs : sch.allOf = some branches) (h : Runs (mergeAllOf doc resolve sch branches name) s r s') :
    Declared doc resolve sch name s r s' := by
  refine declared_of_runs h fun {a d nested t} hb => ?_
  simp only [runs_bind, runs_pure, Prod.mk.injEq] at hb
  obtain ⟨⟨fields, _⟩, t, hf, ⟨rfl, rfl⟩, rfl⟩ := hb
  exact .merged hs hf

/-! ## One schema -/

/-- The name under which a schema that declares itself is declared: enums take the singular. -/
def ownName (sch : Schema) (name : String) : String :=
  match sch.shape with
  | .enumeration _ => Name.singular name
  | _ => name

theorem ownName_of_not_self {sch : Schema} (hself : declaresItself sch.shape = false) (name : String) :
    ownName sch name = name := by
  unfold ownName
  split
  · rename_i hshape
    rw [hshape] at hself
    cases hself
  · rfl

inductive Stepped (doc : Document) (resolve : Resolver) (sch : Schema) (name : String) (position : Position)
    (s : Session) : Resolution → Session → Prop
  | reference {target : String} : sch.shape = .reference target →
      Stepped doc resolve sch name position s (.of (referenceType doc target)) s
  /-- A type that is nobody's declaration. -/
  | builtin {t : TypeRef} {s' : Session} : (declaresItself sch.shape = true → position = .allOfProperty) →
      t.names = [] → s'.registry = s.registry → Stepped doc resolve sch name position s (.of t) s'
  | array {items : Schema} {r : Resolution} {s' : Session} : sch.shape = .array (some items) →
      Runs (resolve items (Name.singular name) (itemPosition position)) s r s' →
      Stepped doc resolve sch name position s ⟨.array r.type, r.declarations⟩ s'
  /-- A single branch outside a component stands for the whole. -/
  | only {branch : Schema} {r : Resolution} {s' : Session} : sch.shape = .allOf [branch] → position ≠ .component →
      Runs (resolve branch name position) s r s' → Stepped doc resolve sch name position s r s'
  | declared {r : Resolution} {s' : Session} : declaresItself sch.shape = true →
      (∀ branch, sch.shape = .allOf [branch] → position = .component) →
      Declared doc resolve sch (ownName sch name) s r s' → Stepped doc resolve sch name position s r s'

theorem names_scalarType (p : Primitive) (format : Option String) : (scalarType p format).names = [] := by
  unfold scalarType
  repeat' split
  all_goals rfl

theorem runs_step {sch : Schema} {name : String} {position : Position} {r : Resolution}
    (h : Runs (step doc resolve sch name position) s r s') : Stepped doc resolve sch name position s r s' := by
  unfold step at h
  split at h <;> rename_i hshape
  · simp only [runs_pure] at h
    obtain ⟨rfl, rfl⟩ := h
    exact .reference hshape
  · have hname : ownName sch name = Name.singular name := by rw [ownName, hshape]
    exact .declared (by rw [hshape]; rfl) (by simp [hshape]) (hname ▸ runs_enumeration h)
  · simp only [runs_pure] at h
    obtain ⟨rfl, rfl⟩ := h
    exact .builtin (by rw [hshape]; intro hd; cases hd) (names_scalarType _ _) rfl
  · simp only [runs_pure] at h
    obtain ⟨rfl, rfl⟩ := h
    exact .builtin (by rw [hshape]; intro hd; cases hd) rfl rfl
  · simp only [runs_bind, runs_pure] at h
    obtain ⟨r, t, hr, rfl, rfl⟩ := h
    exact .array hshape hr
  all_goals
    have hname : ownName sch name = name := by rw [ownName, hshape]
  · exact .declared (by rw [hshape]; rfl) (by simp [hshape]) (hname.symm ▸ runs_object h)
  · exact .declared (by rw [hshape]; rfl) (by simp [hshape])
      (hname.symm ▸ runs_sumType (Schema.eq_of_shape.2.2.1 _ hshape) h)
  · simp only [runs_bind, runs_report, runs_pure] at h
    obtain ⟨_, t, rfl, rfl, rfl⟩ := h
    exact .builtin (by rw [hshape]; intro hd; cases hd) rfl rfl
  · rename_i branches
    have hmerge (hmany : ∀ branch, branches = [branch] → position = .component)
        (h : Runs (mergeAllOf doc resolve sch branches name) s r s') : Stepped doc resolve sch name position s r s' := by
      refine .declared (by rw [hshape]; rfl) ?_ (hname.symm ▸ runs_mergeAllOf (Schema.allOf_of_shape hshape) h)
      intro branch hbranch
      rw [hshape, Shape.allOf.injEq] at hbranch
      exact hmany branch hbranch
    split at h
    · exact hmerge (fun _ _ => rfl) h
    · exact .only hshape ‹_› h
    · rename_i hmany
      exact hmerge (fun branch hbranch => absurd hbranch (hmany branch)) h
    · simp only [runs_bind, runs_report, runs_pure] at h
      obtain ⟨_, t, rfl, rfl, rfl⟩ := h
      exact .builtin (fun _ => rfl) rfl rfl
  · simp only [runs_bind, runs_report, runs_pure] at h
    obtain ⟨_, t, rfl, rfl, rfl⟩ := h
    exact .builtin (by rw [hshape]; intro hd; cases hd) rfl rfl

/-- A component that declares itself goes through `declaring` and nothing else. -/
theorem runs_component {sch : Schema} {name : String} {r : Resolution} (hself : declaresItself sch.shape = true)
    (h : Runs (step doc resolve sch name .component) s r s') :
    Declared doc resolve sch (ownName sch name) s r s' := by
  cases runs_step h with
  | reference hshape => rw [hshape] at hself; cases hself
  | builtin hpos _ _ => cases hpos hself
  | array hshape _ => rw [hshape] at hself; cases hself
  | only _ hpos _ => exact absurd rfl hpos
  | declared _ _ hd => exact hd

end ClientGen.Resolve
