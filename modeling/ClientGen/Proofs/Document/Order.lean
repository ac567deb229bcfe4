import Mathlib.Data.List.Forall2
import ClientGen.Proofs.Document.Value

/-
  ClientGen.Proofs.Document.Order — the maps of a document that is read are in the order of their keys.

  Decoding a map keeps its keys, and in a value that is read those are in order. So that is true
  of the paths of the document, of the responses of its operations, of its components and of the
  properties of its schemas (`Document.ofText_sorted`). The operations of a path are read in the
  order of their methods (`operationsOf_decoded`).
-/

namespace ClientGen

/-! ## Decoding -/

theorem exists_of_forall₂ {α β : Type} {R : α → β → Prop} {as : List α} {bs : List β} (h : List.Forall₂ R as bs) {b : β}
    (hb : b ∈ bs) : ∃ a ∈ as, R a b := by
  induction h with
  | nil => cases hb
  | @cons a c as bs hac _ ih =>
    rcases List.mem_cons.mp hb with rfl | hb
    · exact ⟨a, List.mem_cons_self, hac⟩
    · obtain ⟨d, hd, hdb⟩ := ih hb
      exact ⟨d, List.mem_cons_of_mem a hd, hdb⟩

theorem forall₂_of_mapM {α β : Type} {f : α → Option β} {items : List α} {values : List β}
    (h : items.mapM f = some values) : List.Forall₂ (fun a b => f a = some b) items values := by
  induction items generalizing values with
  | nil =>
    rw [List.mapM_nil] at h
    cases h
    exact .nil
  | cons a rest ih =>
    simp only [List.mapM_cons, Option.bind_eq_bind, Option.bind_eq_some_iff, Option.pure_def, Option.some.injEq] at h
    obtain ⟨b, hb, more, hmore, rfl⟩ := h
    exact .cons hb (ih hmore)

/-- A map whose values are read one by one has the keys that it had. -/
theorem keys_of_mapM {α β : Type} {f : α → Option β} {entries : KeyMap α} {m : KeyMap β}
    (h : entries.mapM (fun (k, v) => (f v).map (k, ·)) = some m) : m.keys = entries.keys := by
  have hkey : List.Forall₂ (fun (a : String × α) (b : String × β) => a.1 = b.1) entries m := by
    refine (forall₂_of_mapM h).imp ?_
    intro a b hab
    obtain ⟨_, -, rfl⟩ := Option.map_eq_some_iff.mp hab
    rfl
  clear h
  induction hkey with
  | nil => rfl
  | cons hab _ ih => exact List.cons_eq_cons.mpr ⟨hab.symm, ih⟩

/-- The order of its keys decides where an entry of a map stands. -/
theorem KeyMap.Sorted.ext {α : Type} {m m' : KeyMap α} (h : Sorted m) (h' : Sorted m') (hmem : ∀ e, e ∈ m ↔ e ∈ m') :
    m = m' := by
  have hnodup {m : KeyMap α} (h : Sorted m) : m.Nodup := by
    refine List.Pairwise.imp (fun hlt => ?_) h
    rintro rfl
    exact String.lt_irrefl _ hlt
  have hperm : m.Perm m' := (List.perm_ext_iff_of_nodup (hnodup h) (hnodup h')).mpr hmem
  refine hperm.eq_of_pairwise (fun a b _ _ hab hba => ?_) h h'
  exact absurd hab (String.lt_asymm hba)

namespace Json

variable {α : Type} {decode : Json → Option α} {fields : KeyMap Json} {key : String}

theorem structFields_sorted {keys : List String} {due : Nat} {v : Json} (hv : v.Sorted)
    (h : structFields? keys due v = some fields) : ∀ e ∈ fields, e.2.Sorted := by
  unfold structFields? at h
  split at h
  · cases h
    cases hv with
    | obj _ hvalues => exact hvalues
  · split at h
    · cases h
      cases hv with
      | arr hitems => exact fun e he => hitems e.2 (List.of_mem_zip he).2
    · cases h
  · cases h

/-- The value that an optional key is decoded from. -/
theorem exists_of_optional {a : α} (hfields : ∀ e ∈ fields, e.2.Sorted)
    (h : optional? decode fields key = some (some a)) : ∃ v, v.Sorted ∧ decode v = some a := by
  unfold optional? at h
  split at h
  · cases h
  · cases h
  · rename_i v _ hget
    obtain ⟨_, hdecode, heq⟩ := Option.map_eq_some_iff.mp h
    cases heq
    exact ⟨v, hfields _ (KeyMap.mem_of_get? hget), hdecode⟩

/-- A key with a default may be missing. -/
theorem exists_of_defaulted {default a : α} (hfields : ∀ e ∈ fields, e.2.Sorted)
    (h : defaulted? decode default fields key = some a) : a = default ∨ ∃ v, v.Sorted ∧ decode v = some a := by
  unfold defaulted? at h
  split at h
  · cases h
    exact .inl rfl
  · rename_i v hget
    exact .inr ⟨v, hfields _ (KeyMap.mem_of_get? hget), h⟩

/-- A decoded map is in the order of its keys, and its values are decoded one by one. -/
theorem mapOf_sorted {m : KeyMap α} (hfields : ∀ e ∈ fields, e.2.Sorted)
    (h : defaulted? (mapOf? decode) [] fields key = some m) :
    KeyMap.Sorted m ∧ ∀ e ∈ m, ∃ v, v.Sorted ∧ decode v = some e.2 := by
  rcases exists_of_defaulted hfields h with rfl | ⟨v, hv, hm⟩
  · exact ⟨.nil, List.forall_mem_nil _⟩
  · unfold mapOf? at hm
    split at hm
    · cases hv with
      | obj hkeys hvalues =>
        refine ⟨hkeys.of_keys (keys_of_mapM hm), ?_⟩
        intro e he
        obtain ⟨entry, hentry, hdecode⟩ := exists_of_forall₂ (forall₂_of_mapM hm) he
        obtain ⟨a, ha, rfl⟩ := Option.map_eq_some_iff.mp hdecode
        exact ⟨entry.2, hvalues entry hentry, ha⟩
    · cases hm

end Json

/-! ## Schemas -/

/-- The properties of the schema, and of every schema in it, are in the order of their keys. -/
inductive Schema.Sorted : Schema → Prop
  | mk {s : Schema} : KeyMap.Sorted s.propertyList → (∀ e ∈ s.propertyList, Sorted e.2) →
      (∀ i, s.items = some i → Sorted i) → (∀ a, s.additional = some (.schema a) → Sorted a) →
      (∀ bs, s.allOf = some bs ∨ s.oneOf = some bs ∨ s.anyOf = some bs → ∀ b ∈ bs, Sorted b) → Sorted s

namespace Schema

theorem Sorted.propertyList {s : Schema} (h : s.Sorted) : KeyMap.Sorted s.propertyList := by
  cases h
  assumption

theorem Sorted.of_allOf {s b : Schema} {branches : List Schema} (h : s.Sorted) (hs : s.allOf = some branches)
    (hb : b ∈ branches) : b.Sorted := by
  cases h with
  | mk _ _ _ _ hbranches => exact hbranches branches (.inl hs) b hb

theorem blank_sorted : blank.Sorted := by
  refine .mk .nil (List.forall_mem_nil _) ?_ ?_ ?_
  · intro i hi
    cases hi
  · intro a ha
    cases ha
  · rintro bs (h | h | h)
    all_goals cases h

/-- The keywords that hold schemas. -/
theorem Sorted.of_parts {s t : Schema} (h : s.Sorted) (hproperties : t.properties = s.properties)
    (hitems : t.items = s.items) (hadditional : t.additional = s.additional) (hallOf : t.allOf = s.allOf)
    (honeOf : t.oneOf = s.oneOf) (hanyOf : t.anyOf = s.anyOf) : t.Sorted := by
  have hlist : t.propertyList = s.propertyList := by rw [Schema.propertyList, Schema.propertyList, hproperties]
  cases h with
  | mk hkeys hvalues hi ha hbranches =>
    refine .mk (hlist ▸ hkeys) (hlist ▸ hvalues) (hitems ▸ hi) (hadditional ▸ ha) ?_
    rw [hallOf, honeOf, hanyOf]
    exact hbranches

theorem exists_of_withText {set : Option String → Schema} {v : Json} {t : Schema} (h : withText set v = some t) :
    ∃ x, t = set x := by
  unfold withText at h
  split at h
  · cases h
    exact ⟨_, rfl⟩
  · cases h
    exact ⟨_, rfl⟩
  · cases h

theorem exists_of_withFlag {set : Option Bool → Schema} {v : Json} {t : Schema} (h : withFlag set v = some t) :
    ∃ x, t = set x := by
  unfold withFlag at h
  split at h
  · cases h
    exact ⟨_, rfl⟩
  · cases h
    exact ⟨_, rfl⟩
  · cases h

theorem setPlain_sorted {s t : Schema} {key : String} {v : Json} (hs : s.Sorted) (h : setPlain? s key v = some t) :
    t.Sorted := by
  unfold setPlain? at h
  split at h
  case h_1 | h_2 | h_3 | h_4 =>
    obtain ⟨x, rfl⟩ := exists_of_withText h
    exact hs.of_parts rfl rfl rfl rfl rfl rfl
  case h_5 | h_6 =>
    obtain ⟨x, rfl⟩ := exists_of_withFlag h
    exact hs.of_parts rfl rfl rfl rfl rfl rfl
  case h_7 =>
    obtain ⟨x, -, rfl⟩ := Option.map_eq_some_iff.mp h
    exact hs.of_parts rfl rfl rfl rfl rfl rfl
  case h_8 =>
    split at h
    · cases h
      exact hs.of_parts rfl rfl rfl rfl rfl rfl
    · obtain ⟨x, -, rfl⟩ := Option.map_eq_some_iff.mp h
      exact hs.of_parts rfl rfl rfl rfl rfl rfl
  case h_9 =>
    split at h
    · cases h
      exact hs.of_parts rfl rfl rfl rfl rfl rfl
    · cases h
      exact hs.of_parts rfl rfl rfl rfl rfl rfl
    · cases h
  case h_10 =>
    cases h
    exact hs

/-- Whatever a value is read as. -/
structure Reading.Sorted (r : Reading) : Prop where
  schema : ∀ s, r.schema = some s → s.Sorted
  branches : ∀ bs, r.branches = some bs → ∀ b ∈ bs, b.Sorted
  properties : ∀ ps, r.properties = some ps → KeyMap.Sorted ps ∧ ∀ e ∈ ps, e.2.Sorted

theorem Reading.part_of_orNull {α : Type} {r : Reading} {part : Option α} {a : α} (h : r.orNull part = some (some a)) :
    part = some a := by
  unfold orNull at h
  split at h
  · cases h
  · obtain ⟨_, hpart, heq⟩ := Option.map_eq_some_iff.mp h
    cases heq
    exact hpart

theorem Reading.Sorted.additional {r : Reading} (hr : r.Sorted) {a : Schema}
    (h : r.additional = some (some (.schema a))) : a.Sorted := by
  unfold Reading.additional at h
  split at h
  · cases h
  · obtain ⟨_, hschema, heq⟩ := Option.map_eq_some_iff.mp (Reading.part_of_orNull h)
    cases heq
    exact hr.schema a hschema

theorem setKeyword_sorted {s t : Schema} {key : String} {r : Reading} (hs : s.Sorted) (hr : r.Sorted)
    (h : setKeyword? s key r = some t) : t.Sorted := by
  have hread {bs : List Schema} (h : r.orNull r.branches = some (some bs)) : ∀ b ∈ bs, b.Sorted :=
    hr.branches bs (Reading.part_of_orNull h)
  have hplain := hs
  obtain ⟨hkeys, hvalues, hitems, hadditional, hbranches⟩ := hs
  unfold setKeyword? at h
  -- six keywords hold schemas, and each sets one part; no other keyword touches any of them
  split at h
  case h_1 =>
    obtain ⟨x, hx, rfl⟩ := Option.map_eq_some_iff.mp h
    refine .mk hkeys hvalues ?_ hadditional hbranches
    rintro i rfl
    exact hr.schema i (Reading.part_of_orNull hx)
  case h_2 =>
    obtain ⟨x, hx, rfl⟩ := Option.map_eq_some_iff.mp h
    cases x with
    | none => exact .mk .nil (List.forall_mem_nil _) hitems hadditional hbranches
    | some properties =>
      have hproperties := hr.properties properties (Reading.part_of_orNull hx)
      exact .mk hproperties.1 hproperties.2 hitems hadditional hbranches
  case h_3 =>
    obtain ⟨x, hx, rfl⟩ := Option.map_eq_some_iff.mp h
    refine .mk hkeys hvalues hitems ?_ hbranches
    rintro a rfl
    exact hr.additional hx
  case h_4 =>
    obtain ⟨x, hx, rfl⟩ := Option.map_eq_some_iff.mp h
    refine .mk hkeys hvalues hitems hadditional ?_
    rintro bs (rfl | hbs)
    · exact hread hx
    · exact hbranches bs (.inr hbs)
  case h_5 =>
    obtain ⟨x, hx, rfl⟩ := Option.map_eq_some_iff.mp h
    refine .mk hkeys hvalues hitems hadditional ?_
    rintro bs (hbs | rfl | hbs)
    · exact hbranches bs (.inl hbs)
    · exact hread hx
    · exact hbranches bs (.inr (.inr hbs))
  case h_6 =>
    obtain ⟨x, hx, rfl⟩ := Option.map_eq_some_iff.mp h
    refine .mk hkeys hvalues hitems hadditional ?_
    rintro bs (hbs | hbs | rfl)
    · exact hbranches bs (.inl hbs)
    · exact hbranches bs (.inr (.inl hbs))
    · exact hread hx
  case h_7 => exact setPlain_sorted hplain h

theorem ofKeywords_sorted {fields : List (String × Reading)} (hfields : ∀ e ∈ fields, e.2.Sorted) {s : Schema}
    (h : ofKeywords? fields = some s) : s.Sorted := by
  have hfold {start : Schema} (hstart : start.Sorted)
      (h : fields.foldlM (fun s e => setKeyword? s e.1 e.2) start = some s) : s.Sorted := by
    clear * - hfields hstart h
    induction fields generalizing start with
    | nil =>
      cases h
      exact hstart
    | cons e rest ih =>
      rw [List.foldlM_cons, Option.bind_eq_bind, Option.bind_eq_some_iff] at h
      obtain ⟨t, ht, h⟩ := h
      obtain ⟨he, hrest⟩ := List.forall_mem_cons.mp hfields
      exact ih hrest (setKeyword_sorted hstart he ht) h
  exact hfold blank_sorted h

theorem readItems_eq (items : List Json) : readItems items = items.map read := by
  induction items with
  | nil => rw [readItems, List.map_nil]
  | cons v rest ih => rw [readItems, ih, List.map_cons]

theorem readFields_eq (fields : KeyMap Json) : readFields fields = fields.map fun e => (e.1, read e.2) := by
  induction fields with
  | nil => rw [readFields, List.map_nil]
  | cons e rest ih => rw [readFields, ih, List.map_cons]

/-- A value that is neither an array nor an object is no schema. -/
theorem read_sorted_of_none {v : Json} : (Reading.mk v none none none).Sorted := by
  constructor
  all_goals
    intro _ h
    cases h

theorem read_sorted {v : Json} (hv : v.Sorted) : (read v).Sorted := by
  induction hv with
  | null | bool b | int n | float x | str s =>
    rw [read]
    · exact read_sorted_of_none
    all_goals simp
  | @arr items _ ih =>
    have hitems : ∀ r ∈ readItems items, r.Sorted := by
      rw [readItems_eq]
      exact List.forall_mem_map.mpr ih
    rw [read]
    constructor
    case schema =>
      intro s hs
      simp only at hs
      split at hs
      · exact ofKeywords_sorted (fun e he => hitems e.2 (List.of_mem_zip he).2) hs
      · cases hs
    case branches =>
      intro bs hbs b hb
      obtain ⟨r, hr, hschema⟩ := exists_of_forall₂ (forall₂_of_mapM hbs) hb
      exact (hitems r hr).schema b hschema
    case properties =>
      intro _ h
      cases h
  | @obj fields hkeys _ ih =>
    have hfields : ∀ e ∈ readFields fields, e.2.Sorted := by
      rw [readFields_eq]
      exact List.forall_mem_map.mpr ih
    rw [read]
    constructor
    case schema => exact fun s hs => ofKeywords_sorted hfields hs
    case branches =>
      intro _ h
      cases h
    case properties =>
      intro properties hproperties
      have hsameKeys : KeyMap.keys (readFields fields) = KeyMap.keys fields := by
        rw [readFields_eq, KeyMap.keys, List.map_map]
        rfl
      refine ⟨hkeys.of_keys ((keys_of_mapM hproperties).trans hsameKeys), ?_⟩
      intro e he
      obtain ⟨⟨key, r⟩, hr, hschema⟩ := exists_of_forall₂ (forall₂_of_mapM hproperties) he
      obtain ⟨s, hs, rfl⟩ := Option.map_eq_some_iff.mp hschema
      exact (hfields _ hr).schema s hs

theorem decode_sorted {v : Json} {s : Schema} (hv : v.Sorted) (h : decode? v = some s) : s.Sorted :=
  (read_sorted hv).schema s h

end Schema

/-! ## Documents -/

/-- Paths are kept in the order of their texts, and the operations of a path in that of their methods. -/
structure Document.Ordered (doc : Document) : Prop where
  paths : KeyMap.Sorted doc.paths
  methods : ∀ e ∈ doc.paths, (e.2.operations.map (·.1)).Sublist HttpMethod.all

structure Components.Sorted (components : Components) : Prop where
  schemas : KeyMap.Sorted components.schemas
  responses : KeyMap.Sorted components.responses
  parameters : KeyMap.Sorted components.parameters
  requestBodies : KeyMap.Sorted components.requestBodies
  properties : ∀ e ∈ components.schemas, e.2.Sorted

/-- Every map of the document is in the order of its keys. -/
structure Document.Sorted (doc : Document) : Prop where
  ordered : doc.Ordered
  responses : ∀ e ∈ doc.paths, ∀ o ∈ e.2.operations, KeyMap.Sorted o.2.responses
  components : doc.components.Sorted

theorem Operation.decode_sorted {v : Json} {op : Operation} (hv : v.Sorted) (h : Operation.decode? v = some op) :
    KeyMap.Sorted op.responses := by
  simp only [Operation.decode?, Option.bind_eq_bind, Option.bind_eq_some_iff, Option.pure_def, Option.some.injEq] at h
  obtain ⟨fields, hfields, _, -, _, -, _, -, _, -, _, -, _, -, responses, hresponses, _, -, rfl⟩ := h
  have hvalues : ∀ e ∈ fields, e.2.Sorted := by
    cases hv with
    | obj _ hvalues =>
      cases hfields
      exact hvalues
    | _ => cases hfields
  exact (Json.mapOf_sorted hvalues hresponses).1

/-- Operations are read one by one, in the order of the methods that are asked for. -/
theorem operationsOf_decoded {fields : KeyMap Json} {methods : List HttpMethod}
    {operations : List (HttpMethod × Operation)} (hfields : ∀ e ∈ fields, e.2.Sorted)
    (h : operationsOf? fields methods = some operations) :
    (operations.map (·.1)).Sublist methods ∧ ∀ o ∈ operations, ∃ v, v.Sorted ∧ Operation.decode? v = some o.2 := by
  induction methods generalizing operations with
  | nil =>
    cases h
    exact ⟨List.Sublist.slnil, List.forall_mem_nil _⟩
  | cons method rest ih =>
    simp only [operationsOf?, Option.bind_eq_bind, Option.bind_eq_some_iff, Option.pure_def, Option.some.injEq] at h
    obtain ⟨operation, hoperation, more, hmore, rfl⟩ := h
    obtain ⟨hmethods, hread⟩ := ih hmore
    cases operation with
    | some op =>
      have hop := Json.exists_of_optional hfields hoperation
      exact ⟨hmethods.cons_cons method, List.forall_mem_cons.mpr ⟨hop, hread⟩⟩
    | none => exact ⟨hmethods.cons method, hread⟩

theorem PathItem.operations_decoded {v : Json} {item : PathItem} (hv : v.Sorted) (h : PathItem.decode? v = some item) :
    (item.operations.map (·.1)).Sublist HttpMethod.all ∧
      ∀ o ∈ item.operations, ∃ v, v.Sorted ∧ Operation.decode? v = some o.2 := by
  simp only [PathItem.decode?, Option.bind_eq_bind, Option.bind_eq_some_iff, Option.pure_def, Option.some.injEq] at h
  obtain ⟨fields, hfields, _, -, _, -, _, -, operations, hoperations, _, -, rfl⟩ := h
  exact operationsOf_decoded (Json.structFields_sorted hv hfields) hoperations

theorem Components.decode_sorted {v : Json} {components : Components} (hv : v.Sorted)
    (h : Components.decode? v = some components) : components.Sorted := by
  simp only [Components.decode?, Option.bind_eq_bind, Option.bind_eq_some_iff, Option.pure_def, Option.some.injEq] at h
  obtain ⟨fields, hfields, schemas, hschemas, responses, hresponses, parameters, hparameters, bodies, hbodies, rfl⟩ := h
  have hvalues := Json.structFields_sorted hv hfields
  obtain ⟨hkeys, hread⟩ := Json.mapOf_sorted hvalues hschemas
  constructor
  case schemas => exact hkeys
  case responses => exact (Json.mapOf_sorted hvalues hresponses).1
  case parameters => exact (Json.mapOf_sorted hvalues hparameters).1
  case requestBodies => exact (Json.mapOf_sorted hvalues hbodies).1
  case properties =>
    intro e he
    obtain ⟨w, hw, hdecode⟩ := hread e he
    exact Schema.decode_sorted hw hdecode

theorem Components.blank_sorted : Components.blank.Sorted := ⟨.nil, .nil, .nil, .nil, List.forall_mem_nil _⟩

namespace Document

theorem paths_decoded {v : Json} {doc : Document} (hv : v.Sorted) (h : decode? v = some doc) :
    KeyMap.Sorted doc.paths ∧ ∀ e ∈ doc.paths, ∃ w, w.Sorted ∧ PathItem.decode? w = some e.2 := by
  simp only [decode?, Option.bind_eq_bind, Option.bind_eq_some_iff, Option.pure_def, Option.some.injEq] at h
  obtain ⟨fields, hfields, _, -, _, -, _, -, _, -, paths, hpaths, _, -, rfl⟩ := h
  exact Json.mapOf_sorted (Json.structFields_sorted hv hfields) hpaths

theorem components_sorted {v : Json} {doc : Document} (hv : v.Sorted) (h : decode? v = some doc) :
    doc.components.Sorted := by
  simp only [decode?, Option.bind_eq_bind, Option.bind_eq_some_iff, Option.pure_def, Option.some.injEq] at h
  obtain ⟨fields, hfields, _, -, _, -, _, -, _, -, _, -, components, hcomponents, rfl⟩ := h
  rcases Json.exists_of_defaulted (Json.structFields_sorted hv hfields) hcomponents with rfl | ⟨w, hw, hdecode⟩
  · exact Components.blank_sorted
  · exact Components.decode_sorted hw hdecode

theorem decode_sorted {v : Json} {doc : Document} (hv : v.Sorted) (h : decode? v = some doc) : doc.Sorted := by
  obtain ⟨hkeys, hread⟩ := paths_decoded hv h
  have hitems : ∀ e ∈ doc.paths, (e.2.operations.map (·.1)).Sublist HttpMethod.all ∧
      ∀ o ∈ e.2.operations, ∃ w, w.Sorted ∧ Operation.decode? w = some o.2 := by
    intro e he
    obtain ⟨w, hw, hdecode⟩ := hread e he
    exact PathItem.operations_decoded hw hdecode
  constructor
  case ordered => exact ⟨hkeys, fun e he => (hitems e he).1⟩
  case responses =>
    intro e he o ho
    obtain ⟨w, hw, hdecode⟩ := (hitems e he).2 o ho
    exact Operation.decode_sorted hw hdecode
  case components => exact components_sorted hv h

theorem modifyKey_sorted {key : String} {f : Json → Json} (hf : ∀ v, v.Sorted → (f v).Sorted) {v : Json}
    (hv : v.Sorted) : (modifyKey key f v).Sorted := by
  cases hv with
  | obj hkeys hvalues =>
    refine .obj (hkeys.of_keys (KeyMap.keys_modify _ _ _)) ?_
    intro e he
    obtain ⟨⟨k, w⟩, hw, rfl⟩ := List.mem_map.mp he
    have hw : w.Sorted := hvalues _ hw
    by_cases hk : k = key
    · simpa only [if_pos hk] using hf w hw
    · simpa only [if_neg hk] using hw
  | null => exact .null
  | bool b => exact .bool b
  | int n => exact .int n
  | float x => exact .float x
  | str s => exact .str s
  | arr hitems => exact .arr hitems

theorem numberAsText_sorted {v : Json} (hv : v.Sorted) : (numberAsText v).Sorted := by
  unfold numberAsText
  split
  · exact .str _
  · exact .str _
  · exact hv

/-- What a document is decoded from once it has been prepared is in order too. -/
theorem ofJson_decoded {v : Json} {doc : Document} (hv : v.Sorted) (h : ofJson v = .ok doc) :
    ∃ w, w.Sorted ∧ decode? w = some doc := by
  unfold ofJson at h
  repeat' split at h
  any_goals cases h
  have hprepared : (modifyKey "info" (modifyKey "version" numberAsText) v).Sorted :=
    modifyKey_sorted (fun _ => modifyKey_sorted fun _ => numberAsText_sorted) hv
  cases hdecode : decode? (modifyKey "info" (modifyKey "version" numberAsText) v) with
  | none =>
    rw [hdecode] at h
    cases h
  | some decoded =>
    rw [hdecode] at h
    cases h
    exact ⟨_, hprepared, hdecode⟩

theorem ofText_decoded {text : String} {hint : Option String} {doc : Document} (h : ofText text hint = .ok doc) :
    ∃ w, w.Sorted ∧ decode? w = some doc := by
  unfold ofText at h
  cases hread : readSource text hint with
  | error e =>
    rw [hread] at h
    cases h
  | ok v =>
    rw [hread] at h
    exact ofJson_decoded (readSource_sorted hread) h

/-- Documents are read in order, whatever order their texts have. -/
theorem ofText_sorted {text : String} {hint : Option String} {doc : Document} (h : ofText text hint = .ok doc) :
    doc.Sorted := by
  obtain ⟨w, hw, hdecode⟩ := ofText_decoded h
  exact decode_sorted hw hdecode

end Document

end ClientGen
