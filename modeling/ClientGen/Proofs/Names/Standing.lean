import ClientGen.Proofs.Names.Collision
import ClientGen.Proofs.Names.Extended
import ClientGen.Proofs.Names.Items
import ClientGen.Proofs.Run.Type

/-
  ClientGen.Proofs.Names.Standing — what the name of a payload stands for.

  A payload is resolved first, and its name becomes an alias of the type unless the type is the
  name itself. Until then the name is free, also for what is inside the payload:
  - A plain array is resolved under `Items`, and names under that are longer than the name
    (`not_namedAfter_items`).
  - An array that is the only branch of an `allOf` is resolved under the name as it is. Its items
    take the singular, which is the name itself for every name that does not end like a plural.
    Then the items are declared under the name and the alias is dropped (`part_takes_name`).
  In all other cases the name stands for the payload (`declareNamed_denotes_iff`). Where the items
  take it, no declaration of theirs passes for the dropped alias: an alias that a schema is
  declared as mentions no name (`resolveAt_nameless`).
-/

namespace ClientGen

/-- The name is that of the type, or is declared as an alias of it. -/
def Denotes (name : String) (t : TypeRef) (documentation : Option String) (ds : List Declaration) : Prop :=
  t = .named name ∨ .type (.aliasOf name t documentation) ∈ ds

/-- What the items of an array are, and of the arrays inside it. An `allOf` with one branch is that
    branch. -/
def innermost (sch : Schema) : Schema :=
  match h : sch.shape with
  | .array (some items) =>
    have : sizeOf items < sizeOf sch := Schema.sizeOf_lt_of_items (Schema.items_of_shape h)
    innermost items
  | .allOf [branch] =>
    have : sizeOf branch < sizeOf sch := Schema.sizeOf_lt_of_allOf (Schema.allOf_of_shape h) (by simp)
    innermost branch
  | _ => sch
termination_by sizeOf sch

theorem innermost_array {sch items : Schema} (h : sch.shape = .array (some items)) : innermost sch = innermost items := by
  rw [innermost]
  split <;> simp_all

theorem innermost_only {sch branch : Schema} (h : sch.shape = .allOf [branch]) : innermost sch = innermost branch := by
  rw [innermost]
  split <;> simp_all

/-- The payload is an array that is wrapped in an `allOf`, its name is its own singular, and what
    the items are in the end declares a type. -/
structure TakesName (sch : Schema) (name : String) : Prop where
  singular : Name.singular name = name
  wrapped : ∃ branch, sch.shape = .allOf [branch]
  array : ∃ items, (unwrapped sch .nested).shape = .array (some items)
  declares : Resolve.declaresItself (innermost sch).shape = true

/-- An alias that mentions no name. -/
def Declaration.Nameless (d : Declaration) : Prop :=
  ∀ name t documentation, d = .type (.aliasOf name t documentation) → t.names = []

namespace Resolve

variable {doc : Document} {fuel : Nat} {s s' t : Session} {sch items : Schema} {name : String} {r : Resolution}
  {ds : List Declaration}

theorem built_nameless (doc : Document) (root : String) : BuildsOnly root Declaration.Nameless doc := by
  intro resolve sch name s d nested s' _ h
  cases h with
  | opaqueEnum ht _ =>
    intro n u documentation heq
    simp only [TypeDecl.aliasOf, Declaration.type.injEq, TypeDecl.mk.injEq, TypeRepr.aliasOf.injEq] at heq
    exact heq.2.1 ▸ ht
  | _ => simp [Declaration.Nameless, TypeDecl.aliasOf]

theorem resolveAt_nameless (h : Runs (resolveAt doc fuel sch name .nested) s r s') :
    ∀ d ∈ r.declarations, d.Nameless :=
  resolveAt_declares (built_nameless doc name) fuel .self h

/-! ## Under the name itself -/

/-- Under a name that is its own singular, the innermost schema takes the name if it declares a type,
    and otherwise nothing is declared. -/
theorem innermost_takes (hsingular : Name.singular name = name) (hfree : name ∉ s.registry.keys)
    (h : Runs (resolveAt doc fuel sch name .nested) s r s') :
    (declaresItself (innermost sch).shape = true ∧ r.type.names = [name] ∧ name ∈ declaredNames r.declarations ∧
        s'.registry.origin? name = some (innermost sch)) ∨
      (declaresItself (innermost sch).shape = false ∧ r.declarations = []) := by
  fun_induction innermost sch generalizing fuel r with
  | case1 sch items hshape _ ih =>
    cases fuel with
    | zero => cases h
    | succ fuel =>
      obtain ⟨inner, hinner, rfl⟩ := (runs_array hshape).mp h
      rw [hsingular] at hinner
      have hitems := ih hinner
      exact hitems
  | case2 sch branch hshape _ ih =>
    cases fuel with
    | zero => cases h
    | succ fuel =>
      simp only [resolveAt, step, hshape] at h
      exact ih h
  | case3 sch harray honly =>
    cases fuel with
    | zero => cases h
    | succ fuel =>
      cases runs_step h with
      | reference hshape => exact .inr ⟨by rw [hshape]; rfl, rfl⟩
      | builtin hself _ _ =>
        refine .inr ⟨?_, rfl⟩
        cases hdeclares : declaresItself sch.shape with
        | false => rfl
        | true => cases hself hdeclares
      | array hshape _ => exact absurd hshape (harray _)
      | only hshape _ _ => exact absurd hshape (honly _)
      | declared hself _ hd =>
        have hown : ownName sch name = name := by
          rw [← hsingular, ownName_singular]
        rw [hown] at hd
        cases hd with
        | @fresh d nested t _ hb =>
          obtain ⟨hname, hplain, -⟩ := built_emits (resolveAt_emits doc fuel) hb
          refine .inl ⟨hself, rfl, ?_, declared_origin (resolveAt_growing doc fuel) hb⟩
          rw [declaredNames_cons hplain, hname]
          exact List.mem_cons_self
        | taken htaken => exact absurd htaken.mem_keys hfree

theorem not_mem_declaredNames {root : String} (hroot : ¬ NamedAfter root name) (h : MadeAll root ds) :
    name ∉ declaredNames ds := by
  intro hmem
  obtain ⟨d, hd, rfl⟩ := mem_declaredNames hmem
  exact hroot (h d hd).named

/-- Where the name is not that of the type, only the items of an array can have taken it. -/
theorem named_or_not_declared (hfree : name ∉ s.registry.keys) (h : Runs (resolveAt doc fuel sch name .nested) s r s')
    (hnot : Name.singular name = name → (∃ items, (unwrapped sch .nested).shape = .array (some items)) →
      declaresItself (innermost sch).shape = false) :
    r.type = .named name ∨ name ∉ declaredNames r.declarations := by
  induction fuel generalizing sch with
  | zero => cases h
  | succ fuel ih =>
    by_cases harray : ∃ items, sch.shape = .array (some items)
    · right
      obtain ⟨items, hshape⟩ := harray
      by_cases hsingular : Name.singular name = name
      · have hself : unwrapped sch .nested = sch := unwrapped_eq_self (by simp [hshape])
        rcases innermost_takes hsingular hfree h with ⟨hdeclares, -⟩ | ⟨-, hnone⟩
        · rw [hnot hsingular ⟨items, by rw [hself, hshape]⟩] at hdeclares
          cases hdeclares
        · rw [hnone]
          exact List.not_mem_nil
      · obtain ⟨inner, hinner, rfl⟩ := (runs_array hshape).mp h
        have hmade := resolveAt_made doc _ fuel .self hinner
        exact not_mem_declaredNames (not_namedAfter_singular hsingular) hmade
    · cases runs_step h with
      | reference _ => exact .inr List.not_mem_nil
      | builtin _ _ _ => exact .inr List.not_mem_nil
      | array hshape _ => exact absurd ⟨_, hshape⟩ harray
      | only hshape hposition hb =>
        refine ih hb ?_
        rw [unwrapped_only hshape hposition, innermost_only hshape] at hnot
        exact hnot
      | declared hself _ hd =>
        by_cases hown : ownName sch name = name
        · exact .inl (hown ▸ (declared_mem_keys (resolveAt_emits doc fuel) hd).1)
        · right
          have hsingular : ownName sch name = Name.singular name := by
            unfold ownName at hown ⊢
            split at hown
            · rfl
            · exact absurd rfl hown
          rw [hsingular] at hd hown
          exact not_mem_declaredNames (not_namedAfter_singular hown)
            (declared_made (resolveAt_made doc _ fuel) .self hd)

/-! ## Payloads -/

theorem PayloadRuns.type_eq (h : PayloadRuns doc fuel sch name s r t) :
    r.type = typeAt doc sch (payloadName sch name) .nested := by
  rcases h with ⟨target, hshape, rfl, -⟩ | h
  · rw [typeAt_eq, hshape]
    rfl
  · exact type_of_runs h

theorem PayloadRuns.mem_keys_iff (h : PayloadRuns doc fuel sch name s r t) (hfree : name ∉ s.registry.keys) :
    name ∈ t.registry.keys ↔ name ∈ declaredNames r.declarations := by
  rcases h with ⟨target, -, rfl, rfl⟩ | h
  · exact iff_of_false hfree List.not_mem_nil
  · rw [(resolveAt_emits doc fuel h).names.mem_iff, List.mem_append, or_iff_left hfree]

/-- A payload that declares no type itself leaves its name free. -/
theorem PayloadRuns.not_declared (h : PayloadRuns doc fuel sch name s r t) (hself : declaresItself sch.shape = false) :
    name ∉ declaredNames r.declarations := by
  rcases h with ⟨target, -, rfl, rfl⟩ | h
  · exact List.not_mem_nil
  · rw [payloadName, hself] at h
    cases fuel with
    | zero => cases h
    | succ fuel =>
      cases runs_step h with
      | reference _ => exact List.not_mem_nil
      | builtin _ _ _ => exact List.not_mem_nil
      | array hshape hi =>
        have hmade := resolveAt_made doc _ fuel .self hi
        exact not_mem_declaredNames (not_namedAfter_items name) hmade
      | only hshape _ _ => rw [hshape] at hself; cases hself
      | declared hdeclares _ _ => rw [hself] at hdeclares; cases hdeclares

theorem PayloadRuns.named_or_not_declared (h : PayloadRuns doc fuel sch name s r t) (hfree : name ∉ s.registry.keys)
    (hnot : ¬ TakesName sch name) : r.type = .named name ∨ name ∉ declaredNames r.declarations := by
  cases hself : declaresItself sch.shape with
  | false => exact .inr (h.not_declared hself)
  | true =>
    rcases h with ⟨target, hshape, -, -⟩ | h
    · rw [hshape] at hself
      cases hself
    · rw [payloadName, hself] at h
      refine Resolve.named_or_not_declared hfree h ?_
      rintro hsingular ⟨items, hitems⟩
      refine Bool.eq_false_iff.mpr fun hdeclares => hnot ⟨hsingular, ?_, ⟨items, hitems⟩, hdeclares⟩
      -- only a wrapped array declares no type itself in the end
      by_contra hwrapped
      rw [unwrapped_eq_self (fun branch hshape => absurd ⟨branch, hshape⟩ hwrapped)] at hitems
      rw [hitems] at hself
      cases hself

theorem typeAt_unwrapped (doc : Document) (sch : Schema) (name : String) :
    typeAt doc sch name .nested = typeAt doc (unwrapped sch .nested) name .nested := by
  fun_induction unwrapped sch .nested with
  | case1 => cases ‹Position.nested = .component›
  | case2 sch branch hshape _ _ ih => rw [typeAt_eq, hshape]; exact ih
  | case3 => rfl

/-- The innermost schema takes the name, and the type that was meant for the name is another one. -/
theorem PayloadRuns.taken (h : PayloadRuns doc fuel sch name s r t) (hfree : name ∉ s.registry.keys)
    (htakes : TakesName sch name) :
    r.type ≠ .named name ∧ r.type.names = [name] ∧ (∀ d ∈ r.declarations, d.Nameless) ∧ name ∈ t.registry.keys ∧
      t.registry.origin? name = some (innermost sch) := by
  obtain ⟨branch, hshape⟩ := htakes.wrapped
  obtain ⟨items, hitems⟩ := htakes.array
  have htype := h.type_eq
  have hname : payloadName sch name = name := by rw [payloadName, hshape]; rfl
  have hmem := h.mem_keys_iff hfree
  rcases h with ⟨target, hreference, -, -⟩ | h
  · rw [hshape] at hreference
    cases hreference
  · rw [hname] at h htype
    rcases innermost_takes htakes.singular hfree h with ⟨-, hnames, hdeclared, horigin⟩ | ⟨hnone, -⟩
    · refine ⟨?_, hnames, resolveAt_nameless h, hmem.mpr hdeclared, horigin⟩
      rw [htype, typeAt_unwrapped, typeAt_eq, hitems]
      exact TypeRef.noConfusion
    · rw [htakes.declares] at hnone
      cases hnone

/-- The name of a wrapped array goes to what the items are in the end. -/
theorem part_takes_name (hfree : name ∉ s.registry.keys) (htakes : TakesName sch name)
    (h : Runs (declareNamed doc fuel name sch) s ds s') :
    ∃ r t, PayloadRuns doc fuel sch name s r t ∧ ¬ Denotes name r.type sch.documentation ds ∧
      s'.registry.origin? name = some (innermost sch) := by
  obtain ⟨r, t, hr, hrest⟩ := runs_declareNamed h
  obtain ⟨hne, hnames, hnameless, hmem, horigin⟩ := hr.taken hfree htakes
  refine ⟨r, t, hr, ?_⟩
  rcases hrest with ⟨ht, -, -⟩ | ⟨-, o, ho, rfl⟩
  · exact absurd ht hne
  · rcases runs_declare ho with ⟨-, hnot, -⟩ | ⟨rfl, htaken⟩
    · exact absurd hmem hnot
    · refine ⟨?_, by rw [htaken.registry_eq]; exact horigin⟩
      rintro (ht | halias)
      · exact hne ht
      · have hnone := hnameless _ halias _ _ _ rfl
        rw [hnames] at hnone
        cases hnone

theorem denotes_of_not_takes (hfree : name ∉ s.registry.keys) (hnot : ¬ TakesName sch name)
    (h : Runs (declareNamed doc fuel name sch) s ds s') :
    ∃ r t, PayloadRuns doc fuel sch name s r t ∧ Denotes name r.type sch.documentation ds := by
  obtain ⟨r, t, hr, hrest⟩ := runs_declareNamed h
  refine ⟨r, t, hr, ?_⟩
  rcases hrest with ⟨ht, -, -⟩ | ⟨hne, o, ho, rfl⟩
  · exact .inl ht
  · have hfree' := (hr.named_or_not_declared hfree hnot).resolve_left hne
    rcases runs_declare ho with ⟨rfl, -, -⟩ | ⟨-, htaken⟩
    · exact .inr List.mem_cons_self
    · exact absurd ((hr.mem_keys_iff hfree).mp htaken.mem_keys) hfree'

end Resolve

open Resolve

/-- Declared under a free name, a payload's name stands for the type that the payload resolves to,
    except where the items of a wrapped array take the name: then it belongs to these. -/
theorem declareNamed_denotes_iff {doc : Document} {fuel : Nat} {name : String} {sch : Schema} {s s' : Session}
    {ds : List Declaration} (hfree : name ∉ s.registry.keys) (h : Runs (declareNamed doc fuel name sch) s ds s') :
    ∃ r t, PayloadRuns doc fuel sch name s r t ∧ (Denotes name r.type sch.documentation ds ↔ ¬ TakesName sch name) ∧
      (TakesName sch name → s'.registry.origin? name = some (innermost sch)) := by
  by_cases htakes : TakesName sch name
  · obtain ⟨r, t, hr, hnot, horigin⟩ := part_takes_name hfree htakes h
    exact ⟨r, t, hr, iff_of_false hnot (not_not.mpr htakes), fun _ => horigin⟩
  · obtain ⟨r, t, hr, hdenotes⟩ := denotes_of_not_takes hfree htakes h
    exact ⟨r, t, hr, iff_of_true hdenotes htakes, fun h => absurd h htakes⟩

/-- An array of objects in an `allOf` of its own. -/
def onlyEntries : Schema := { Schema.blank with allOf := some [entries] }

theorem declareNamed_denotes_iff_tags :
    "Tags" ∉ Session.start.registry.keys ∧
      ∃ ds s', Runs (declareNamed plainPlural 4 "Tags" onlyEntries) .start ds s' ∧
        ∃ r t, PayloadRuns plainPlural 4 onlyEntries "Tags" .start r t ∧
          Denotes "Tags" r.type onlyEntries.documentation ds := by
  have hfree : "Tags" ∉ Session.start.registry.keys := List.not_mem_nil
  have hplural : Name.singular "Tags" ≠ "Tags" := by decide
  obtain ⟨ds, s', hrun⟩ : ∃ ds s', Runs (declareNamed plainPlural 4 "Tags" onlyEntries) .start ds s' := ⟨_, _, rfl⟩
  obtain ⟨r, t, hr, hiff, -⟩ := declareNamed_denotes_iff hfree hrun
  exact ⟨hfree, ds, s', hrun, r, t, hr, hiff.mpr fun htakes => hplural htakes.singular⟩

/-- The array is lost: the name of the response is that of an object in it. -/
theorem tagsResponse_names_items :
    "TagsResponse" ∉ Session.start.registry.keys ∧
      ∃ ds s', Runs (declareNamed plainPlural 4 "TagsResponse" onlyEntries) .start ds s' ∧
        (∃ r t, PayloadRuns plainPlural 4 onlyEntries "TagsResponse" .start r t ∧
          ¬ Denotes "TagsResponse" r.type onlyEntries.documentation ds) ∧
        s'.registry.origin? "TagsResponse" = some entry := by
  have hfree : "TagsResponse" ∉ Session.start.registry.keys := List.not_mem_nil
  have honly : onlyEntries.shape = .allOf [entries] := rfl
  have harray : entries.shape = .array (some entry) := rfl
  have hinner : innermost onlyEntries = entry := by
    rw [innermost_only honly, innermost_array harray, innermost]
    rfl
  have htakes : TakesName onlyEntries "TagsResponse" :=
    { singular := by decide
      wrapped := ⟨entries, honly⟩
      array := ⟨entry, by rw [unwrapped_only honly (by decide), unwrapped_eq_self (by simp [harray]), harray]⟩
      declares := by rw [hinner]; rfl }
  obtain ⟨ds, s', hrun⟩ : ∃ ds s', Runs (declareNamed plainPlural 4 "TagsResponse" onlyEntries) .start ds s' :=
    ⟨_, _, rfl⟩
  obtain ⟨r, t, hr, hnot, horigin⟩ := part_takes_name hfree htakes hrun
  exact ⟨hfree, ds, s', hrun, ⟨r, t, hr, hnot⟩, hinner ▸ horigin⟩

end ClientGen
