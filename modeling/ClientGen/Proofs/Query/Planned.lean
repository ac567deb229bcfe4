import ClientGen.Proofs.Alias.Scalar
import ClientGen.Query

/-
  ClientGen.Proofs.Query.Planned — which conversion is planned for a field.

  What a field stands for is the end of its chain of aliases. If that is an array, the field is
  repeated and contributes the items of the array. An item may again have a name, of an alias or
  of an enum, and is then followed for its format.
  - `describes_after`: in a registry built by claims and records, no name recorded twice, an entry
    says what the declaration of its name says. So a name that has a scalar and no target is
    that of an enum (`enum_iff`).
  - `resolveAlias_eq_iff`: resolving finds the ends that have no name. What a cycle resolves to has one.
  - `conversions_suit`: every field has the conversion that is right for what it stands for.
-/

namespace ClientGen

/-! ## Builtin types -/

namespace CastTarget

/-- The builtin type. -/
def type : CastTarget → TypeRef
  | .scalar k => .scalar k
  | .timestamp => .timestamp
  | .date => .date
  | .time => .time

/-- The format of values that have the builtin type itself. -/
def format : CastTarget → ValueFormat
  | .scalar .string => .text
  | .scalar .integer => .integer
  | .scalar .int64 => .integer
  | .scalar .float => .float
  | .scalar .boolean => .boolean
  | .timestamp => .timestamp
  | .date => .date
  | .time => .time

theorem type_ne_named (b : CastTarget) (name : String) : b.type ≠ .named name := by
  cases b <;> exact TypeRef.noConfusion

end CastTarget

namespace Registry

variable {r : Registry} {t e : TypeRef} {name : String} {k : Scalar} {d : Declaration} {ds : List Declaration}
  {changes : List Change}

/-! ## Recorded declarations -/

/-- The declaration that a change records. A name that nobody claimed has no entry to record in. -/
def Change.recording? (r : Registry) : Change → Option Declaration
  | .claim _ _ => none
  | .record d => if r.contains d.name then some d else none

/-- The declarations that the changes record. -/
def recordings (r : Registry) : List Change → List Declaration
  | [] => []
  | c :: rest => (c.recording? r).toList ++ recordings (c.apply r) rest

theorem Change.recorded?_toList (r : Registry) (c : Change) :
    (c.recorded? r).toList = (c.recording? r).toList.map (·.name) := by
  cases c with
  | claim name origin => rfl
  | record d =>
    by_cases hclaimed : r.contains d.name = true
    · simp [recorded?, recording?, hclaimed]
    · simp [recorded?, recording?, hclaimed]

theorem recordedBy_eq (r : Registry) (changes : List Change) :
    recordedBy r changes = (recordings r changes).map (·.name) := by
  induction changes generalizing r with
  | nil => rfl
  | cons c rest ih => rw [recordedBy, recordings, List.map_append, ih, c.recorded?_toList]

/-- The entry of the declaration's name says what the declaration says, and nothing else. -/
def Describes (r : Registry) (d : Declaration) : Prop :=
  ∃ origin, KeyMap.get? r d.name = some (recorded d ⟨origin, none, none⟩)

theorem Describes.claim (h : r.Describes d) (claimed : String) (origin : Option Schema) :
    (r.claim claimed origin).2.Describes d := by
  obtain ⟨first, hentry⟩ := h
  refine ⟨first, ?_⟩
  unfold Registry.claim
  split
  · rename_i hfree
    have hne : d.name ≠ claimed := by
      intro heq
      rw [heq, hfree] at hentry
      cases hentry
    exact (KeyMap.get?_insert_of_ne hne _ r).trans hentry
  · split <;> exact hentry

theorem Describes.record {other : Declaration} (h : r.Describes d) (hne : d.name ≠ other.name) :
    (r.record other).Describes d := by
  obtain ⟨origin, hentry⟩ := h
  refine ⟨origin, ?_⟩
  rw [Registry.record, KeyMap.get?_modify, if_neg hne]
  exact hentry

/-- A name that is claimed, and recorded for the first time. -/
theorem describes_record (hr : r.Tracked (ds.map (·.name))) (hclaimed : r.contains d.name = true)
    (hnew : d.name ∉ ds.map (·.name)) : (r.record d).Describes d := by
  obtain ⟨⟨origin, scalar, aliasOf⟩, hentry⟩ := Option.isSome_iff_exists.mp hclaimed
  obtain ⟨rfl, rfl⟩ := hr.blank hentry hnew
  refine ⟨origin, ?_⟩
  rw [Registry.record, KeyMap.get?_modify, if_pos rfl, hentry, Option.map_some]

theorem describes_apply (hr : r.Tracked (ds.map (·.name))) (hds : ∀ d ∈ ds, r.Describes d) (c : Change)
    (hnew : ∀ d ∈ c.recording? r, d.name ∉ ds.map (·.name)) :
    ∀ d ∈ ds ++ (c.recording? r).toList, (c.apply r).Describes d := by
  intro d hd
  cases c with
  | claim claimed origin =>
    rw [Change.recording?, Option.toList_none, List.append_nil] at hd
    exact (hds d hd).claim claimed origin
  | record other =>
    by_cases hclaimed : r.contains other.name = true
    · have hrecording : Change.recording? r (.record other) = some other := if_pos hclaimed
      have hother := hnew other hrecording
      rw [hrecording, Option.toList_some, List.mem_append, List.mem_singleton] at hd
      rcases hd with hd | rfl
      · exact (hds d hd).record fun heq => hother (heq ▸ List.mem_map_of_mem hd)
      · exact describes_record hr hclaimed hother
    · have hrecording : Change.recording? r (.record other) = none := if_neg hclaimed
      rw [hrecording, Option.toList_none, List.append_nil] at hd
      obtain ⟨origin, hentry⟩ := hds d hd
      exact ⟨origin, (get?_record_of_unclaimed (Bool.not_eq_true _ ▸ hclaimed) d.name).trans hentry⟩

theorem describes_after (hr : r.Tracked (ds.map (·.name))) (hds : ∀ d ∈ ds, r.Describes d)
    (hnodup : (ds.map (·.name) ++ recordedBy r changes).Nodup) :
    ∀ d ∈ ds ++ recordings r changes, (r.after changes).Describes d := by
  induction changes generalizing r ds with
  | nil =>
    rw [recordings, List.append_nil]
    exact hds
  | cons c rest ih =>
    rw [recordedBy, ← List.append_assoc, c.recorded?_toList] at hnodup
    have hnew : ∀ d ∈ c.recording? r, d.name ∉ ds.map (·.name) := by
      intro d hd hmem
      have hfirst := (List.nodup_append.mp hnodup.of_append_left).2.2
      exact hfirst d.name hmem d.name (List.mem_map_of_mem (Option.mem_toList.mpr hd)) rfl
    have hrecorded : ∀ name, c.recorded? r = some name → name ∉ ds.map (·.name) := by
      intro name hname
      have hin : name ∈ (c.recording? r).toList.map (·.name) := by
        rw [← c.recorded?_toList, hname]
        exact List.mem_singleton.mpr rfl
      obtain ⟨d, hd, rfl⟩ := List.mem_map.mp hin
      exact hnew d (Option.mem_toList.mp hd)
    have htracked := hr.apply c hrecorded
    rw [c.recorded?_toList, ← List.map_append] at htracked
    rw [← List.map_append] at hnodup
    rw [recordings, ← List.append_assoc]
    exact ih htracked (describes_apply hr hds c hnew) hnodup

theorem tracked_empty : Tracked [] [] := by
  constructor <;> rintro _ _ ⟨⟩

/-- The name is that of an enum over the scalar. -/
def EnumOver (changes : List Change) (name : String) (k : Scalar) : Prop :=
  ∃ e, .enumeration e ∈ recordings [] changes ∧ e.name = name ∧ e.scalar = k

/-- A name that has a scalar and no target is that of an enum. -/
theorem enum_iff (h : (recordedBy [] changes).Nodup) :
    EnumOver changes name k ↔
      (after [] changes).scalarOf? name = some k ∧ (after [] changes).aliasOf? name = none := by
  have hdescribes : ∀ d ∈ recordings [] changes, (after [] changes).Describes d :=
    @describes_after [] [] changes tracked_empty (List.forall_mem_nil _) h
  constructor
  · rintro ⟨e, he, rfl, rfl⟩
    obtain ⟨origin, hentry⟩ := hdescribes _ he
    have hentry : KeyMap.get? (after [] changes) e.name = some ⟨origin, some e.scalar, none⟩ := hentry
    rw [scalarOf?, aliasOf?, hentry]
    exact ⟨rfl, rfl⟩
  · rintro ⟨hscalar, halias⟩
    obtain ⟨entry, hentry, hk⟩ := Option.bind_eq_some_iff.mp hscalar
    rw [aliasOf?, hentry, Option.bind_some] at halias
    have hrecorded : name ∈ recordedBy [] changes := by
      by_contra hnone
      have hblank := (tracked_empty.after changes h).blank hentry hnone
      rw [hblank.1] at hk
      cases hk
    rw [recordedBy_eq] at hrecorded
    obtain ⟨d, hd, rfl⟩ := List.mem_map.mp hrecorded
    obtain ⟨origin, hdescribed⟩ := hdescribes d hd
    cases hentry.symm.trans hdescribed
    cases d with
    | enumeration e => exact ⟨e, hd, rfl, Option.some.inj hk⟩
    | type d =>
      obtain ⟨name, repr, documentation, isError⟩ := d
      cases repr with
      | aliasOf target => cases target <;> cases halias
      | _ => cases hk
    | _ => cases hk

/-! ## Ends without a name -/

theorem endsAt_self (h : r.Final e) : r.EndsAt e e := ⟨⟨[], .here e⟩, h⟩

/-- What has no name is found exactly where the chain ends. -/
theorem resolveAlias_eq_iff (hunnamed : ∀ name, e ≠ .named name) : r.resolveAlias t = e ↔ r.EndsAt t e := by
  refine ⟨?_, resolveAlias_eq_of_endsAt⟩
  rintro rfl
  by_cases hcircles : r.Circles t
  · rw [resolveAlias_eq_of_circles hcircles] at hunnamed ⊢
    exact endsAt_self fun name hname => absurd hname (hunnamed name)
  · rw [circles_iff] at hcircles
    push Not at hcircles
    obtain ⟨e, hends⟩ := hcircles
    rw [resolveAlias_eq_of_endsAt hends]
    exact hends

theorem isArray_resolveAlias_iff : (r.resolveAlias t).isArray = true ↔ ∃ item, r.EndsAt t (.array item) := by
  constructor
  · intro h
    cases hresolved : r.resolveAlias t with
    | array item => exact ⟨item, (resolveAlias_eq_iff fun _ => TypeRef.noConfusion).mp hresolved⟩
    | _ =>
      rw [hresolved] at h
      cases h
  · rintro ⟨item, hends⟩
    rw [resolveAlias_eq_of_endsAt hends]
    rfl

theorem queryElement_of_endsAt {item : TypeRef} (h : r.EndsAt t (.array item)) : r.queryElement t = item := by
  rw [queryElement, resolveAlias_eq_of_endsAt h]

theorem queryElement_of_not_isArray (h : (r.resolveAlias t).isArray = false) : r.queryElement t = t := by
  rw [queryElement]
  split
  · rename_i item hresolved
    rw [hresolved] at h
    cases h
  · rfl

/-- A name stands for a builtin type, or for an enum over it. -/
def Wraps (changes : List Change) (name : String) (b : CastTarget) : Prop :=
  (after [] changes).EndsAt (.named name) b.type ∨
    ∃ last k, (after [] changes).EndsAt (.named name) (.named last) ∧ EnumOver changes last k ∧ b = .scalar k

end Registry

/-! ## Formats -/

open Registry

namespace ValueFormat

variable {r : Registry} {changes : List Change} {name : String}

theorem ofElement_type (r : Registry) (b : CastTarget) : ofElement r b.type = b.format := by
  cases b with
  | scalar k => cases k <;> rfl
  | _ => rfl

theorem ofNamed_of_endsAt {b : CastTarget} (h : r.EndsAt (.named name) b.type) : ofNamed r name = .cast b := by
  rw [ofNamed, resolveAlias_eq_of_endsAt h]
  cases b <;> rfl

theorem ofNamed_of_wraps (h : (recordedBy [] changes).Nodup) {b : CastTarget} (hwraps : Wraps changes name b) :
    ofNamed (after [] changes) name = .cast b := by
  rcases hwraps with hends | ⟨last, k, hends, henum, rfl⟩
  · exact ofNamed_of_endsAt hends
  · have hscalar : (after [] changes).underlyingScalar? name = some k :=
      (underlyingScalar_eq_some_iff (tracked_empty.after changes h).coherent).mpr
        ⟨_, hends, .inr ⟨last, rfl, ((enum_iff h).mp henum).1⟩⟩
    rw [ofNamed, resolveAlias_eq_of_endsAt hends]
    simp only [hscalar]

/-- A name that is not converted is written as text. -/
theorem ofNamed_cases (changes : List Change) (name : String) (h : (recordedBy [] changes).Nodup) :
    (∃ b, Wraps changes name b ∧ ofNamed (after [] changes) name = .cast b) ∨ ofNamed (after [] changes) name = .text := by
  have hunnamed (b : CastTarget) : (after [] changes).resolveAlias (.named name) = b.type ↔
      (after [] changes).EndsAt (.named name) b.type := resolveAlias_eq_iff b.type_ne_named
  rw [ofNamed]
  split
  · rename_i k hresolved
    exact .inl ⟨.scalar k, .inl ((hunnamed (.scalar k)).mp hresolved), rfl⟩
  · rename_i hresolved
    exact .inl ⟨.timestamp, .inl ((hunnamed .timestamp).mp hresolved), rfl⟩
  · rename_i hresolved
    exact .inl ⟨.date, .inl ((hunnamed .date).mp hresolved), rfl⟩
  · rename_i hresolved
    exact .inl ⟨.time, .inl ((hunnamed .time).mp hresolved), rfl⟩
  · split
    · rename_i k hscalar
      obtain ⟨e, hends, hk⟩ := (underlyingScalar_eq_some_iff (tracked_empty.after changes h).coherent).mp hscalar
      refine .inl ⟨.scalar k, ?_, rfl⟩
      rcases hk with rfl | ⟨last, rfl, hlast⟩
      · exact .inl hends
      · exact .inr ⟨last, k, hends, (enum_iff h).mpr ⟨hlast, hends.2 last rfl⟩, rfl⟩
    · exact .inr rfl
  · exact .inr rfl

end ValueFormat

/-- A conversion is right for what its field stands for: it adds a pair for each item exactly if that
    is an array, and formats its elements as the builtin types that they are, or are named for. -/
structure Conversion.Suits (changes : List Change) (f : Field) (c : Conversion) : Prop where
  repeated_iff : c.repeated = true ↔ ∃ item, (after [] changes).EndsAt f.type (.array item)
  element_of_array : ∀ item, (after [] changes).EndsAt f.type (.array item) → c.element = item
  element_of_single : c.repeated = false → c.element = f.type
  format_of_builtin : ∀ b : CastTarget, c.element = b.type → c.format = b.format
  format_of_wrapped : ∀ name b, c.element = .named name → Wraps changes name b → c.format = .cast b
  format_of_other : (∀ b : CastTarget, c.element ≠ b.type) → (∀ name b, c.element = .named name → ¬ Wraps changes name b) →
    c.format = .text

theorem Conversion.suits_ofField {changes : List Change} (h : (recordedBy [] changes).Nodup) (f : Field) :
    Suits changes f (ofField (after [] changes) f) where
  repeated_iff := isArray_resolveAlias_iff
  element_of_array _ := queryElement_of_endsAt
  element_of_single := queryElement_of_not_isArray
  format_of_builtin b helement := by
    show ValueFormat.ofElement _ ((after [] changes).queryElement f.type) = b.format
    rw [show (after [] changes).queryElement f.type = b.type from helement, ValueFormat.ofElement_type]
  format_of_wrapped name b helement hwraps := by
    show ValueFormat.ofElement _ ((after [] changes).queryElement f.type) = .cast b
    rw [show (after [] changes).queryElement f.type = .named name from helement]
    exact ValueFormat.ofNamed_of_wraps h hwraps
  format_of_other := by
    intro hbuiltin hwraps
    show ValueFormat.ofElement _ ((after [] changes).queryElement f.type) = .text
    cases helement : (after [] changes).queryElement f.type with
    | scalar k => exact absurd helement (hbuiltin (.scalar k))
    | timestamp => exact absurd helement (hbuiltin .timestamp)
    | date => exact absurd helement (hbuiltin .date)
    | time => exact absurd helement (hbuiltin .time)
    | named name =>
      rcases ValueFormat.ofNamed_cases changes name h with ⟨b, hb, -⟩ | htext
      · exact absurd hb (hwraps name b helement)
      · exact htext
    | array item => rfl
    | map value => rfl
    | any => rfl

/-- In a registry built by claims and records, no name recorded twice, every field of a struct is
    planned the conversion that is right for what the field stands for. -/
theorem conversions_suit {changes : List Change} (h : (recordedBy [] changes).Nodup) (typeName : String)
    (fields : List Field) :
    List.Forall₂ (Conversion.Suits changes) fields
      (QueryEncoder.ofFields (after [] changes) typeName fields).conversions := by
  show List.Forall₂ _ fields (fields.map (Conversion.ofField (after [] changes)))
  rw [List.forall₂_map_right_iff, List.forall₂_same]
  exact fun f _ => Conversion.suits_ofField h f

/-- Aliases of builtin types, of an array of aliases and of an enum, an alias of an array of arrays,
    two names that are aliases of each other, and a struct. -/
def searchChanges : List Change :=
  (["Since", "Stamps", "Status", "State", "States", "Grid", "Up", "Down", "Point"].map fun name => .claim name none) ++
    [.record (.type (.aliasOf "Since" .timestamp none)),
      .record (.type (.aliasOf "Stamps" (.array (.named "Since")) none)),
      .record (.enumeration ⟨"Status", .string, [], none⟩),
      .record (.type (.aliasOf "State" (.named "Status") none)),
      .record (.type (.aliasOf "States" (.array (.named "State")) none)),
      .record (.type (.aliasOf "Grid" (.array (.array .string)) none)),
      .record (.type (.aliasOf "Up" (.named "Down") none)), .record (.type (.aliasOf "Down" (.named "Up") none)),
      .record (.type ⟨"Point", .struct [], none, false⟩)]

def searchFields : List Field :=
  [⟨"Grid", .named "Grid", false, "grid", none⟩, ⟨"Limit", .scalar .int64, true, "limit", none⟩,
    ⟨"Since", .named "Since", true, "since", none⟩, ⟨"Stamps", .named "Stamps", false, "stamps", none⟩,
    ⟨"States", .named "States", true, "states", none⟩, ⟨"Up", .named "Up", true, "up", none⟩,
    ⟨"Points", .array (.named "Point"), true, "points", none⟩]

theorem conversions_suit_search :
    (recordedBy [] searchChanges).Nodup ∧
      List.Forall₂ (Conversion.Suits searchChanges) searchFields
        (QueryEncoder.ofFields (after [] searchChanges) "SearchParams" searchFields).conversions ∧
      (QueryEncoder.ofFields (after [] searchChanges) "SearchParams" searchFields).conversions.map
          (fun c => (c.repeated, c.element, c.format)) =
        [(true, .array .string, .text), (false, .scalar .int64, .integer), (false, .named "Since", .cast .timestamp),
          (true, .named "Since", .cast .timestamp), (true, .named "State", .cast (.scalar .string)),
          (false, .named "Up", .text), (true, .named "Point", .text)] := by
  have hnodup : (recordedBy [] searchChanges).Nodup := by decide +kernel
  exact ⟨hnodup, conversions_suit hnodup "SearchParams" searchFields, by decide +kernel⟩

end ClientGen
