import ClientGen.Proofs.Merge.First
import ClientGen.Proofs.Merge.Reached
import ClientGen.Proofs.Names.Mention
import ClientGen.Proofs.Run.Operation

/-
  ClientGen.Proofs.Names.Closure — what is built mentions known names only.

  Let `P` hold of every reference, and `K` of the type name that a reference stands for (`Covers`). `Closes K r ts r'`:
  if the registry at the end, `r'`, has no name outside `K`, then the types `ts` mention names of
  `K` only, and so do the aliases that the registry has on the way. A type gets a name
  - from a reference, which names a component,
  - from a claim, fresh or lost: either way the name is in the registry from then on,
  - from an alias in the registry, when a query value is followed to what it stands for.
-/

namespace ClientGen

variable {K P : String → Prop}

/-- All names in a type are among `K`. -/
def TypeRef.In (K : String → Prop) (t : TypeRef) : Prop := ∀ n ∈ t.names, K n

theorem TypeRef.In.of_names {t : TypeRef} (h : t.names = []) : t.In K := by
  intro n hn
  rw [h] at hn
  cases hn

@[simp] theorem TypeRef.in_named {name : String} : (TypeRef.named name).In K ↔ K name := by simp [TypeRef.In, TypeRef.names]

theorem TypeRef.in_array {t : TypeRef} : (TypeRef.array t).In K ↔ t.In K := .rfl

/-- `P` holds of the references in a schema. -/
def Schema.Refers (P : String → Prop) (s : Schema) : Prop := ∀ target ∈ s.references, P target

theorem Schema.Refers.child {s c : Schema} (h : s.Refers P) (hc : c ∈ s.children) : c.Refers P :=
  fun target ht => h target (Schema.mem_references_of_child hc ht)

/-- `K` holds what a reference names, in whatever schema of a component the reference stands. -/
structure Covers (K P : String → Prop) (doc : Document) : Prop where
  refs : ∀ {target}, P target → (referenceType doc target).In K
  components : ∀ {key s}, (key, s) ∈ doc.components.schemas → s.Refers P

theorem Covers.reference {doc : Document} (hK : Covers K P doc) {s : Schema} (hs : s.Refers P) {target : String}
    (h : s.shape = .reference target) : (referenceType doc target).In K :=
  hK.refs (hs target (Schema.mem_references_of_reference (Schema.eq_of_shape.1 target h)))

/-! ## Aliases in the registry -/

namespace Registry

/-- What the names of a registry stand for mentions names of `K` only. -/
def AliasesIn (K : String → Prop) (r : Registry) : Prop := ∀ name t, r.aliasOf? name = some t → t.In K

theorem AliasesIn.claim {r : Registry} (h : r.AliasesIn K) (name : String) (origin : Option Schema) :
    Registry.AliasesIn K (KeyMap.insert name ⟨origin, none, none⟩ r) := by
  intro n t ht
  by_cases hn : n = name
  · subst hn
    rw [aliasOf?, KeyMap.get?_insert_self] at ht
    cases ht
  · rw [aliasOf?, KeyMap.get?_insert_of_ne hn] at ht
    exact h n t ht

theorem aliasOf_recorded {d : Declaration} {entry : RegistryEntry} {t : TypeRef}
    (h : (recorded d entry).aliasOf = some t) : t ∈ d.types ∨ entry.aliasOf = some t := by
  unfold recorded at h
  split at h
  · exact .inr h
  · cases h
    exact .inl List.mem_cons_self
  · cases h
    exact .inl List.mem_cons_self
  · exact .inr h

theorem AliasesIn.record {r : Registry} (h : r.AliasesIn K) {d : Declaration} (hd : ∀ t ∈ d.types, t.In K) :
    (r.record d).AliasesIn K := by
  intro n t ht
  rw [aliasOf?, Registry.record, KeyMap.get?_modify] at ht
  split at ht
  · obtain ⟨entry, he, ht⟩ := Option.bind_eq_some_iff.mp ht
    obtain ⟨old, hold, rfl⟩ := Option.map_eq_some_iff.mp he
    rcases aliasOf_recorded ht with ht | ht
    · exact hd t ht
    · exact h n t (by rw [aliasOf?, hold]; exact ht)
  · exact h n t ht

theorem AliasesIn.followAlias {r : Registry} (h : r.AliasesIn K) {t u : TypeRef} {steps : Nat} (ht : t.In K)
    (hu : r.followAlias t steps = some u) : u.In K := by
  induction steps generalizing t with
  | zero => cases hu
  | succ steps ih =>
    unfold Registry.followAlias at hu
    split at hu
    · split at hu
      · exact ih (h _ _ ‹_›) hu
      · cases hu
        exact ht
    · cases hu
      exact ht

theorem AliasesIn.resolveAlias {r : Registry} (h : r.AliasesIn K) {t : TypeRef} (ht : t.In K) :
    (r.resolveAlias t).In K := by
  rw [Registry.resolveAlias]
  cases hu : r.followAlias t (r.length + 1) with
  | none => exact ht
  | some u => exact h.followAlias ht hu

theorem AliasesIn.queryElement {r : Registry} (h : r.AliasesIn K) {t : TypeRef} (ht : t.In K) :
    (r.queryElement t).In K := by
  unfold Registry.queryElement
  split
  · rename_i item hitem
    have := h.resolveAlias ht
    rw [hitem] at this
    exact this
  · exact ht

end Registry

/-! ## Steps that close -/

structure Closes (K : String → Prop) (r : Registry) (ts : List TypeRef) (r' : Registry) : Prop where
  grows : ∀ n ∈ r.keys, n ∈ r'.keys
  closes : (∀ n ∈ r'.keys, K n) → r.AliasesIn K → r'.AliasesIn K ∧ ∀ t ∈ ts, t.In K

namespace Closes

variable {r r' r'' : Registry} {ts us : List TypeRef}

theorem of_eq (h : r' = r) (hts : ∀ t ∈ ts, t.In K) : Closes K r ts r' := by
  subst h
  exact ⟨fun _ hn => hn, fun _ ha => ⟨ha, hts⟩⟩

theorem mono (h : Closes K r ts r') (hus : ∀ t ∈ us, t ∈ ts) : Closes K r us r' :=
  ⟨h.grows, fun hk ha => ⟨(h.closes hk ha).1, fun t ht => (h.closes hk ha).2 t (hus t ht)⟩⟩

theorem append (h : Closes K r ts r') (h' : Closes K r' us r'') : Closes K r (ts ++ us) r'' := by
  refine ⟨fun n hn => h'.grows n (h.grows n hn), fun hk ha => ?_⟩
  obtain ⟨ha', hts⟩ := h.closes (fun n hn => hk n (h'.grows n hn)) ha
  obtain ⟨ha'', hus⟩ := h'.closes hk ha'
  refine ⟨ha'', fun t ht => ?_⟩
  rcases List.mem_append.mp ht with ht | ht
  · exact hts t ht
  · exact hus t ht

theorem cons (h : Closes K r ts r') {t : TypeRef} (ht : t.In K) : Closes K r (t :: ts) r' := by
  refine ⟨h.grows, fun hk ha => ⟨(h.closes hk ha).1, fun u hu => ?_⟩⟩
  rcases List.mem_cons.mp hu with rfl | hu
  · exact ht
  · exact (h.closes hk ha).2 u hu

theorem array {t : TypeRef} (h : Closes K r (t :: ts) r') : Closes K r (.array t :: ts) r' := by
  refine ⟨h.grows, fun hk ha => ⟨(h.closes hk ha).1, fun u hu => ?_⟩⟩
  rcases List.mem_cons.mp hu with rfl | hu
  · exact TypeRef.in_array.mpr ((h.closes hk ha).2 t List.mem_cons_self)
  · exact (h.closes hk ha).2 u (List.mem_cons_of_mem t hu)

/-- A name in the registry is known. -/
theorem named (h : Closes K r ts r') {name : String} (hn : name ∈ r'.keys) : Closes K r (.named name :: ts) r' := by
  refine ⟨h.grows, fun hk ha => ⟨(h.closes hk ha).1, fun u hu => ?_⟩⟩
  rcases List.mem_cons.mp hu with rfl | hu
  · exact TypeRef.in_named.mpr (hk name hn)
  · exact (h.closes hk ha).2 u hu

/-- A claim and what is built under it. -/
theorem declared {name : String} {origin : Option Schema} {d : Declaration}
    (h : Closes K (KeyMap.insert name ⟨origin, none, none⟩ r) (d.types ++ ts) r') :
    Closes K r (.named name :: (d.types ++ ts)) (r'.record d) := by
  have hkeys : (r'.record d).keys = r'.keys := KeyMap.keys_modify _ _ _
  refine Closes.named ⟨fun n hn => ?_, fun hk ha => ?_⟩ ?_
  · rw [hkeys]
    exact h.grows n (KeyMap.mem_keys_insert.mpr (.inr hn))
  · rw [hkeys] at hk
    obtain ⟨ha', hts⟩ := h.closes hk (ha.claim name origin)
    exact ⟨ha'.record fun t ht => hts t (List.mem_append_left _ ht), hts⟩
  · rw [hkeys]
    exact h.grows name (KeyMap.mem_keys_insert.mpr (.inl rfl))

end Closes

namespace Resolve

variable {doc : Document} {resolve : Resolver} {fuel : Nat} {s s' : Session}

/-- The types that a list of declarations mentions. -/
def typesOf (ds : List Declaration) : List TypeRef := ds.flatMap (·.types)

@[simp] theorem typesOf_nil : typesOf [] = [] := rfl

@[simp] theorem typesOf_cons (d : Declaration) (ds : List Declaration) : typesOf (d :: ds) = d.types ++ typesOf ds := rfl

@[simp] theorem typesOf_append (ds es : List Declaration) : typesOf (ds ++ es) = typesOf ds ++ typesOf es := by
  simp [typesOf]

/-- A resolver that closes what it answers, on schemas that refer to what `P` holds of. -/
def ClosesAll (K P : String → Prop) (resolve : Resolver) : Prop :=
  ∀ {sch name position s r s'}, sch.Refers P → Runs (resolve sch name position) s r s' →
    Closes K s.registry (r.type :: typesOf r.declarations) s'.registry

/-! ## Fields -/

theorem mem_of_mem_sortedFields {f : Field} {fields : List Field} (h : f ∈ sortedFields fields) : f ∈ fields :=
  mem_of_mem_firstByKeyFrom ((sortBy_perm _ _).mem_iff.mp h)

theorem types_sortedFields {t : TypeRef} {fields : List Field} (h : t ∈ (sortedFields fields).map (·.type)) :
    t ∈ fields.map (·.type) := by
  obtain ⟨f, hf, rfl⟩ := List.mem_map.mp h
  exact List.mem_map_of_mem (mem_of_mem_sortedFields hf)

theorem structFields_closes (hr : ClosesAll K P resolve) {isRequired : String → Bool} {parent : String}
    {position : Position} {properties : List (String × Schema)} (hs : ∀ e ∈ properties, e.2.Refers P)
    {fields : List Field} {ds : List Declaration}
    (h : Runs (structFields resolve isRequired parent position properties) s (fields, ds) s') :
    Closes K s.registry (fields.map (·.type) ++ typesOf ds) s'.registry := by
  induction properties generalizing s fields ds with
  | nil =>
    simp only [structFields, runs_pure, Prod.mk.injEq] at h
    obtain ⟨⟨rfl, rfl⟩, rfl⟩ := h
    exact .of_eq rfl (by simp)
  | cons e rest ih =>
    obtain ⟨r, t, more, moreDs, hone, hrest, rfl, rfl⟩ := runs_structFields_cons h
    have hone := hr (hs e List.mem_cons_self) hone
    have hrest := ih (fun x hx => hs x (List.mem_cons_of_mem e hx)) hrest
    refine (hone.append hrest).mono fun u hu => ?_
    simp only [List.map_cons, typesOf_append, List.mem_append, List.mem_cons] at hu ⊢
    rcases hu with (hu | hu) | hu | hu <;> simp [hu]

theorem sumVariants_closes (hr : ClosesAll K P resolve) {name : String} {number : Nat} {labels : NameSet}
    {branches : List Schema} (hs : ∀ b ∈ branches, b.Refers P) {variants : List SumVariant} {ds : List Declaration}
    (h : Runs (sumVariants resolve name number labels branches) s (variants, ds) s') :
    Closes K s.registry (variants.map (·.type) ++ typesOf ds) s'.registry := by
  induction branches generalizing s number labels variants ds with
  | nil =>
    simp only [sumVariants, runs_pure, Prod.mk.injEq] at h
    obtain ⟨⟨rfl, rfl⟩, rfl⟩ := h
    exact .of_eq rfl (by simp)
  | cons branch rest ih =>
    obtain ⟨r, t, more, moreDs, hone, hrest, rfl, rfl⟩ := runs_sumVariants_cons h
    have hone := hr (hs branch List.mem_cons_self) hone
    have hrest := ih (fun b hb => hs b (List.mem_cons_of_mem branch hb)) hrest
    refine (hone.append hrest).mono fun u hu => ?_
    simp only [List.map_cons, typesOf_append, List.mem_append, List.mem_cons] at hu ⊢
    rcases hu with (hu | hu) | hu | hu <;> simp [hu]

/-! ## Merges -/

theorem mergeParts_refer (hK : Covers K P doc) {sch : Schema} (hs : sch.Refers P) {branches : List Schema}
    (hb : sch.allOf = some branches) {part : Schema} (h : .schema part ∈ mergeParts doc sch branches) :
    part.Refers P :=
  of_mem_mergeParts (fun hs hb hmem => hs.child (Schema.mem_children_of_allOf hb hmem)) (fun _ he => hK.components he) hs
    hb h

theorem partFields_closes (hr : ClosesAll K P resolve) {sch : Schema} {name : String} {number : Nat}
    {seen : List String} {parts : List Part} (hs : ∀ {part}, .schema part ∈ parts → part.Refers P)
    {fields : List Field} {ds : List Declaration}
    (h : Runs (partFields resolve sch name number seen parts) s (fields, ds) s') :
    Closes K s.registry (fields.map (·.type) ++ typesOf ds) s'.registry := by
  induction parts generalizing s number seen fields ds with
  | nil =>
    simp only [partFields, runs_pure, Prod.mk.injEq] at h
    obtain ⟨⟨rfl, rfl⟩, rfl⟩ := h
    exact .of_eq rfl (by simp)
  | cons part rest ih =>
    have hrest {part : Schema} (hp : .schema part ∈ rest) : part.Refers P := hs (List.mem_cons_of_mem _ hp)
    rcases runs_partFields_cons h with ⟨t, ht, -, hr⟩ | ⟨branch, t, own, ownDs, more, moreDs, rfl, hown, hmore, rfl, rfl⟩
    · exact ht ▸ ih hrest hr
    · have hown := structFields_closes hr (fun e he => (hs List.mem_cons_self).child
        (Schema.mem_children_of_property (List.mem_filter.mp he).1)) hown
      refine (hown.append (ih hrest hmore)).mono fun u hu => ?_
      simp only [List.map_append, typesOf_append, List.mem_append] at hu ⊢
      rcases hu with (hu | hu) | hu | hu <;> simp [hu]

/-! ## One schema -/

theorem built_closes (hK : Covers K P doc) (hr : ClosesAll K P resolve) {sch : Schema} (hs : sch.Refers P)
    {name : String} {d : Declaration} {nested : List Declaration} (h : Built doc resolve sch name s d nested s') :
    Closes K s.registry (d.types ++ typesOf nested) s'.registry := by
  have hfields {fields : List Field} {nested : List Declaration} {t : Session}
      (h : Closes K s.registry (fields.map (·.type) ++ typesOf nested) t.registry) :
      Closes K s.registry ((sortedFields fields).map (·.type) ++ typesOf nested) t.registry := by
    refine h.mono fun u hu => ?_
    rcases List.mem_append.mp hu with hu | hu
    · exact List.mem_append_left _ (types_sortedFields hu)
    · exact List.mem_append_right _ hu
  cases h with
  | enumeration _ he => exact .of_eq he (by simp [Declaration.types])
  | opaqueEnum ht he => exact .of_eq he (by simpa [Declaration.types, TypeRepr.types, TypeDecl.aliasOf] using .of_names ht)
  | opaqueMap => exact .of_eq rfl (by simpa [Declaration.types, TypeRepr.types] using .of_names rfl)
  | map hv hrun => exact hr (hs.child (Schema.mem_children_of_additional hv)) hrun
  | struct hf => exact hfields (structFields_closes hr (fun e he => hs.child (Schema.mem_children_of_property he)) hf)
  | sum hb hv => exact sumVariants_closes hr (fun b hmem => hs.child (Schema.mem_children_of_oneOf hb hmem)) hv
  | merged hb hf => exact hfields (partFields_closes hr (fun hp => mergeParts_refer hK hs hb hp) hf)

theorem declared_closes (hK : Covers K P doc) (hr : ClosesAll K P resolve) {sch : Schema} (hs : sch.Refers P)
    {name : String} {r : Resolution} (h : Declared doc resolve sch name s r s') :
    Closes K s.registry (r.type :: typesOf r.declarations) s'.registry := by
  cases h with
  | fresh hn hb => exact Closes.declared (built_closes hK hr hs hb)
  | taken htaken =>
    have hr := htaken.registry_eq
    exact Closes.named (.of_eq hr (by intro t ht; cases ht)) (hr ▸ htaken.mem_keys)

theorem step_closes (hK : Covers K P doc) (hr : ClosesAll K P resolve) : ClosesAll K P (step doc resolve) := by
  intro sch name position s r s' hs h
  cases runs_step h with
  | reference hshape => exact .of_eq rfl (by simpa [Resolution.of] using hK.reference hs hshape)
  | builtin _ ht he => exact .of_eq he (by simpa [Resolution.of] using .of_names ht)
  | array hshape hi =>
    exact (hr (hs.child (Schema.mem_children_of_items (Schema.items_of_shape hshape))) hi).array
  | only hshape _ hb =>
    exact hr (hs.child (Schema.mem_children_of_allOf (Schema.allOf_of_shape hshape) List.mem_cons_self)) hb
  | declared _ _ hd => exact declared_closes hK hr hs hd

theorem resolveAt_closes (hK : Covers K P doc) (fuel : Nat) : ClosesAll K P (resolveAt doc fuel) := by
  induction fuel with
  | zero => intro sch name position s r s' _ h; cases h
  | succ fuel ih => exact step_closes hK ih

/-- Where nothing is declared, only references name anything. -/
theorem mapType_in (hK : Covers K P doc) {subject : String} {sch : Schema} (hs : sch.Refers P) :
    (ClientGen.mapType doc subject sch).1.In K := by
  fun_induction ClientGen.mapType doc subject sch with
  | case1 sch target hshape => exact hK.reference hs hshape
  | case2 sch p => exact .of_names (names_scalarType p sch.format)
  | case3 sch _ _ p => exact .of_names (names_scalarType p sch.format)
  | case6 sch items hshape _ t ds ht ih =>
    rw [ht] at ih
    exact ih (hs.child (Schema.mem_children_of_items (Schema.items_of_shape hshape)))
  | case9 sch _ _ value hvalue _ t ds ht ih =>
    rw [ht] at ih
    exact ih (hs.child (Schema.mem_children_of_additional hvalue))
  | case10 sch branch hshape _ ih =>
    exact ih (hs.child (Schema.mem_children_of_allOf (Schema.allOf_of_shape hshape) List.mem_cons_self))
  | _ => exact .of_names rfl

end Resolve

end ClientGen
