import ClientGen.Proofs.Names.Closure
import ClientGen.Proofs.Names.Fresh

/-
  ClientGen.Proofs.Names.Made — declarations as a schema makes them.

  A schema passes the name it is given on to what is inside it, with endings that say where
  (`NamedAfter`). Whatever is declared for it is named after that name, is unmarked, and has
  members named in one way (`Declaration.Formed`): the field of a property by its key, the
  constants of an enum by the enum and their value, the accessors of a sum by their types. Constants
  and accessors are numbered where needed, so those of one type differ.
  What holds of everything that is built holds of all that a schema declares with what is inside it
  (`resolveAt_declares`), so `resolveAt_made` needs to look at one declaration only.
-/

namespace ClientGen

/-- The names that a schema with the name `root` passes on to what is inside it. -/
inductive NamedAfter (root : String) : String → Prop
  | self : NamedAfter root root
  | property {name : String} (key : String) : NamedAfter root name → NamedAfter root (name ++ Name.identifier key)
  | option {name : String} (number : Nat) : NamedAfter root name →
      NamedAfter root (name ++ "Option" ++ toString number)
  | value {name : String} : NamedAfter root name → NamedAfter root (name ++ "Value")
  | items {name : String} : NamedAfter root name → NamedAfter root (name ++ "Items")
  | singular {name : String} : NamedAfter root name → NamedAfter root (Name.singular name)

theorem NamedAfter.ownName {root name : String} (h : NamedAfter root name) (sch : Schema) :
    NamedAfter root (Resolve.ownName sch name) := by
  unfold Resolve.ownName
  split
  · exact h.singular
  · exact h

/-! ## Members -/

/-- Constants are named by their enum and their value, each in its own way. -/
structure EnumDecl.Formed (d : EnumDecl) : Prop where
  named : ∀ v ∈ d.variants, Numbered (variantName d.name v.value) v.name
  nodup : (d.variants.map (·.name)).Nodup

/-- Accessors are named by their types, each in its own way. -/
structure SumDecl.Formed (d : SumDecl) : Prop where
  named : ∀ v ∈ d.variants, Numbered (accessorLabel v.type) v.label
  nodup : (d.variants.map (·.label)).Nodup

theorem variantName_extends (enumName : String) (l : Literal) :
    ∃ suffix, suffix ≠ "" ∧ variantName enumName l = enumName ++ suffix := by
  unfold variantName
  dsimp only
  split
  · exact ⟨"Empty", by decide, rfl⟩
  · exact ⟨_, ‹_›, rfl⟩

/-- A constant extends the name of its enum. -/
theorem EnumDecl.Formed.extends_name {d : EnumDecl} (h : d.Formed) :
    ∀ v ∈ d.variants, ∃ suffix, suffix ≠ "" ∧ v.name = d.name ++ suffix := by
  intro v hv
  obtain ⟨suffix, hne, hname⟩ := variantName_extends d.name v.value
  rcases h.named v hv with hchosen | ⟨n, hchosen⟩
  · exact ⟨suffix, hne, hchosen.trans hname⟩
  · refine ⟨suffix ++ toString n, ?_, ?_⟩
    · rw [ne_eq, String.append_eq_empty_iff, not_and]
      exact fun hempty => absurd hempty hne
    · rw [hchosen, NameSet.numbered, hname, String.append_assoc]

def Declaration.Formed : Declaration → Prop
  | .type d => ∀ f ∈ d.fields, f.name = Name.identifier f.key
  | .enumeration d => d.Formed
  | .sum d => d.Formed
  | .queryEncoder _ => True

theorem Declaration.Formed.markError {d : Declaration} (h : d.Formed) : d.markError.Formed := by
  cases d with
  | sum d =>
    obtain ⟨hnamed, hnodup⟩ : d.Formed := h
    exact ⟨hnamed, hnodup⟩
  | _ => exact h

/-- Made for a schema with the name `root`, or inside it. -/
structure Declaration.MadeFrom (root : String) (d : Declaration) : Prop where
  unmarked : d.isError = false
  formed : d.Formed
  named : NamedAfter root d.name

namespace Resolve

variable {doc : Document} {resolve : Resolver} {fuel : Nat} {s s' : Session} {root : String}

/-! ## Variants -/

theorem variantsOf_named {name : String} {scalar : Scalar} {names : NameSet} {values : List Json} :
    ∀ v ∈ (variantsOf name scalar names values).1, Numbered (variantName name v.value) v.name := by
  induction values generalizing names with
  | nil => exact List.forall_mem_nil _
  | cons v rest ih =>
    simp only [variantsOf]
    split
    · rename_i l _
      exact List.forall_mem_cons.mpr ⟨names.numbered_of_claim (variantName name l), ih⟩
    · exact ih

theorem variantsOf_fresh (name : String) (scalar : Scalar) (names : NameSet) (values : List Json) :
    names.Fresh ((variantsOf name scalar names values).1.map (·.name)) := by
  induction values generalizing names with
  | nil => exact names.fresh_nil
  | cons v rest ih =>
    simp only [variantsOf]
    split
    · exact (ih _).claim
    · exact ih names

theorem enumeration_formed (name : String) (scalar : Scalar) (values : List Json) (documentation : Option String) :
    EnumDecl.Formed ⟨name, scalar, sortByText (·.name) (variantsOf name scalar .empty values).1, documentation⟩ where
  named := by
    intro v hv
    exact variantsOf_named v ((sortBy_perm _ _).mem_iff.mp hv)
  nodup := ((sortBy_perm _ _).map _).nodup_iff.mpr (variantsOf_fresh name scalar .empty values).1

theorem sumVariants_formed {name : String} {number : Nat} {labels : NameSet} {branches : List Schema}
    {variants : List SumVariant} {ds : List Declaration}
    (h : Runs (sumVariants resolve name number labels branches) s (variants, ds) s') :
    (∀ v ∈ variants, Numbered (accessorLabel v.type) v.label) ∧ labels.Fresh (variants.map (·.label)) := by
  induction branches generalizing s number labels variants ds with
  | nil =>
    simp only [sumVariants, runs_pure, Prod.mk.injEq] at h
    obtain ⟨⟨rfl, -⟩, -⟩ := h
    exact ⟨List.forall_mem_nil _, labels.fresh_nil⟩
  | cons branch rest ih =>
    obtain ⟨r, t, more, moreDs, -, hrest, rfl, -⟩ := runs_sumVariants_cons h
    obtain ⟨hnamed, hfresh⟩ := ih hrest
    exact ⟨List.forall_mem_cons.mpr ⟨labels.numbered_of_claim _, hnamed⟩, hfresh.claim⟩

/-! ## Inside a schema -/

section Inside

variable {P : Declaration → Prop}

/-- All that a resolver declares under names after `root` has the property. -/
def DeclaresOnly (root : String) (P : Declaration → Prop) (resolve : Resolver) : Prop :=
  ∀ {sch name position s r s'}, NamedAfter root name → Runs (resolve sch name position) s r s' →
    ∀ d ∈ r.declarations, P d

theorem structFields_declares (hr : DeclaresOnly root P resolve) {isRequired : String → Bool} {parent : String}
    (hparent : NamedAfter root parent) {position : Position} {properties : List (String × Schema)} {fields : List Field}
    {ds : List Declaration} (h : Runs (structFields resolve isRequired parent position properties) s (fields, ds) s') :
    ∀ d ∈ ds, P d := by
  induction properties generalizing s fields ds with
  | nil =>
    simp only [structFields, runs_pure, Prod.mk.injEq] at h
    obtain ⟨⟨-, rfl⟩, -⟩ := h
    exact List.forall_mem_nil _
  | cons e rest ih =>
    obtain ⟨r, t, more, moreDs, hone, hrest, -, rfl⟩ := runs_structFields_cons h
    exact List.forall_mem_append.mpr ⟨hr (hparent.property e.1) hone, ih hrest⟩

theorem sumVariants_declares (hr : DeclaresOnly root P resolve) {name : String} (hname : NamedAfter root name)
    {number : Nat} {labels : NameSet} {branches : List Schema} {variants : List SumVariant} {ds : List Declaration}
    (h : Runs (sumVariants resolve name number labels branches) s (variants, ds) s') : ∀ d ∈ ds, P d := by
  induction branches generalizing s number labels variants ds with
  | nil =>
    simp only [sumVariants, runs_pure, Prod.mk.injEq] at h
    obtain ⟨⟨-, rfl⟩, -⟩ := h
    exact List.forall_mem_nil _
  | cons branch rest ih =>
    obtain ⟨r, t, more, moreDs, hone, hrest, -, rfl⟩ := runs_sumVariants_cons h
    exact List.forall_mem_append.mpr ⟨hr (hname.option number) hone, ih hrest⟩

theorem partFields_declares (hr : DeclaresOnly root P resolve) {sch : Schema} {name : String}
    (hname : NamedAfter root name) {number : Nat} {seen : List String} {parts : List Part} {fields : List Field}
    {ds : List Declaration} (h : Runs (partFields resolve sch name number seen parts) s (fields, ds) s') :
    ∀ d ∈ ds, P d := by
  induction parts generalizing s number seen fields ds with
  | nil =>
    simp only [partFields, runs_pure, Prod.mk.injEq] at h
    obtain ⟨⟨-, rfl⟩, -⟩ := h
    exact List.forall_mem_nil _
  | cons part rest ih =>
    rcases runs_partFields_cons h with ⟨t, -, -, hrest⟩ |
      ⟨branch, t, own, ownDs, more, moreDs, -, hown, hrest, -, rfl⟩
    · exact ih hrest
    · exact List.forall_mem_append.mpr ⟨structFields_declares hr hname hown, ih hrest⟩

theorem nested_declares (hr : DeclaresOnly root P resolve) {sch : Schema} {name : String} (hname : NamedAfter root name)
    {d : Declaration} {nested : List Declaration} (h : Built doc resolve sch name s d nested s') : ∀ e ∈ nested, P e := by
  cases h with
  | enumeration _ _ => exact List.forall_mem_nil _
  | opaqueEnum _ _ => exact List.forall_mem_nil _
  | opaqueMap => exact List.forall_mem_nil _
  | map _ hv => exact hr hname.value hv
  | struct hf => exact structFields_declares hr hname hf
  | sum _ hv => exact sumVariants_declares hr hname hv
  | merged _ hf => exact partFields_declares hr hname hf

/-- What is built has the property. -/
def BuildsOnly (root : String) (P : Declaration → Prop) (doc : Document) : Prop :=
  ∀ {resolve sch name s d nested s'}, NamedAfter root name → Built doc resolve sch name s d nested s' → P d

theorem declared_declares (hP : BuildsOnly root P doc) (hr : DeclaresOnly root P resolve) {sch : Schema} {name : String}
    (hname : NamedAfter root name) {r : Resolution} (h : Declared doc resolve sch name s r s') :
    ∀ d ∈ r.declarations, P d := by
  cases h with
  | fresh _ hb => exact List.forall_mem_cons.mpr ⟨hP hname hb, nested_declares hr hname hb⟩
  | taken _ => exact List.forall_mem_nil _

theorem step_declares (hP : BuildsOnly root P doc) (hr : DeclaresOnly root P resolve) :
    DeclaresOnly root P (step doc resolve) := by
  intro sch name position s r s' hname h
  cases runs_step h with
  | reference _ => exact List.forall_mem_nil _
  | builtin _ _ _ => exact List.forall_mem_nil _
  | array _ hi =>
    have := hr hname.singular hi
    exact this
  | only _ _ hb => exact hr hname hb
  | declared _ _ hd => exact declared_declares hP hr (hname.ownName sch) hd

/-- A property of all that is built is one of all that is declared. -/
theorem resolveAt_declares (hP : BuildsOnly root P doc) (fuel : Nat) : DeclaresOnly root P (resolveAt doc fuel) := by
  induction fuel with
  | zero =>
    intro sch name position s r s' _ h
    cases h
  | succ fuel ih => exact step_declares hP ih

end Inside

/-! ## As a schema makes them -/

def MadeAll (root : String) (ds : List Declaration) : Prop := ∀ d ∈ ds, d.MadeFrom root

@[simp] theorem madeAll_nil : MadeAll root [] := List.forall_mem_nil _

theorem madeAll_cons {d : Declaration} {ds : List Declaration} (hd : d.MadeFrom root) (h : MadeAll root ds) :
    MadeAll root (d :: ds) :=
  List.forall_mem_cons.mpr ⟨hd, h⟩

theorem MadeAll.append {ds es : List Declaration} (hd : MadeAll root ds) (he : MadeAll root es) :
    MadeAll root (ds ++ es) :=
  List.forall_mem_append.mpr ⟨hd, he⟩

/-- A resolver that makes declarations under names after `root` when it is given one. -/
def Makes (root : String) (resolve : Resolver) : Prop :=
  ∀ {sch name position s r s'}, NamedAfter root name → Runs (resolve sch name position) s r s' →
    MadeAll root r.declarations

/-- Fields are named by their keys. -/
def NamedByKey (fields : List Field) : Prop := ∀ f ∈ fields, f.name = Name.identifier f.key

theorem NamedByKey.sortedFields {fields : List Field} (h : NamedByKey fields) : NamedByKey (sortedFields fields) :=
  fun f hf => h f (mem_of_mem_sortedFields hf)

theorem structFields_keyed {isRequired : String → Bool} {parent : String} {position : Position}
    {properties : List (String × Schema)} {fields : List Field} {ds : List Declaration}
    (h : Runs (structFields resolve isRequired parent position properties) s (fields, ds) s') : NamedByKey fields := by
  induction properties generalizing s fields ds with
  | nil =>
    simp only [structFields, runs_pure, Prod.mk.injEq] at h
    obtain ⟨⟨rfl, -⟩, -⟩ := h
    exact List.forall_mem_nil _
  | cons e rest ih =>
    obtain ⟨r, t, more, moreDs, -, hrest, rfl, -⟩ := runs_structFields_cons h
    exact List.forall_mem_cons.mpr ⟨rfl, ih hrest⟩

theorem partFields_keyed {sch : Schema} {name : String} {number : Nat} {seen : List String} {parts : List Part}
    {fields : List Field} {ds : List Declaration}
    (h : Runs (partFields resolve sch name number seen parts) s (fields, ds) s') : NamedByKey fields := by
  induction parts generalizing s number seen fields ds with
  | nil =>
    simp only [partFields, runs_pure, Prod.mk.injEq] at h
    obtain ⟨⟨rfl, -⟩, -⟩ := h
    exact List.forall_mem_nil _
  | cons part rest ih =>
    rcases runs_partFields_cons h with ⟨t, -, -, hrest⟩ |
      ⟨branch, t, own, ownDs, more, moreDs, -, hown, hrest, rfl, -⟩
    · exact ih hrest
    · exact List.forall_mem_append.mpr ⟨structFields_keyed hown, ih hrest⟩

theorem built_made (doc : Document) (root : String) : BuildsOnly root (·.MadeFrom root) doc := by
  intro resolve sch name s d nested s' hname h
  cases h with
  | enumeration _ _ => exact ⟨rfl, enumeration_formed .., hname⟩
  | opaqueEnum _ _ => exact ⟨rfl, List.forall_mem_nil _, hname⟩
  | opaqueMap => exact ⟨rfl, List.forall_mem_nil _, hname⟩
  | map _ _ => exact ⟨rfl, List.forall_mem_nil _, hname⟩
  | struct hf => exact ⟨rfl, (structFields_keyed hf).sortedFields, hname⟩
  | sum _ hv =>
    obtain ⟨hnamed, hfresh⟩ := sumVariants_formed hv
    exact ⟨rfl, ⟨hnamed, hfresh.1⟩, hname⟩
  | merged _ hf => exact ⟨rfl, (partFields_keyed hf).sortedFields, hname⟩

theorem declared_made (hr : Makes root resolve) {sch : Schema} {name : String} (hname : NamedAfter root name)
    {r : Resolution} (h : Declared doc resolve sch name s r s') : MadeAll root r.declarations :=
  declared_declares (built_made doc root) hr hname h

/-- Everything that resolving a schema declares is named after the schema. -/
theorem resolveAt_made (doc : Document) (root : String) (fuel : Nat) : Makes root (resolveAt doc fuel) :=
  resolveAt_declares (built_made doc root) fuel

end Resolve

end ClientGen
