import ClientGen.Document.Schema

/-
  ClientGen.Proofs.Document.Same — what it means that two schemas are the same.

  Numbers compare by value, so a literal may have either zero. Apart from that, being the same is
  being equal: a value is made canonical by giving every zero the positive sign, and two schemas
  are the same exactly when their canonical forms are equal (`Schema.same_iff`). So it is an
  equivalence, and a name that belongs to one of two schemas that are the same belongs to both.
-/

namespace ClientGen

/-! ## Values -/

def Double.canonical (x : Double) : Double := if x.mant = 0 then ⟨false, 0, 0⟩ else x

theorem Double.same_iff {x y : Double} : x.same y = true ↔ x.canonical = y.canonical := by
  simp only [same, canonical, Bool.or_eq_true, beq_iff_eq, Bool.and_eq_true]
  constructor
  · rintro (rfl | ⟨hx, hy⟩)
    · rfl
    · rw [if_pos hx, if_pos hy]
  · intro h
    by_cases hx : x.mant = 0
    · by_cases hy : y.mant = 0
      · exact .inr ⟨hx, hy⟩
      · rw [if_pos hx, if_neg hy] at h
        exact absurd (congrArg Double.mant h).symm hy
    · by_cases hy : y.mant = 0
      · rw [if_neg hx, if_pos hy] at h
        exact absurd (congrArg Double.mant h) hx
      · rw [if_neg hx, if_neg hy] at h
        exact .inl h

namespace Json

mutual

def canonical : Json → Json
  | .float x => .float x.canonical
  | .arr items => .arr (canonicalItems items)
  | .obj fields => .obj (canonicalFields fields)
  | v => v

def canonicalItems : List Json → List Json
  | [] => []
  | v :: rest => canonical v :: canonicalItems rest

def canonicalFields : List (String × Json) → List (String × Json)
  | [] => []
  | (key, v) :: rest => (key, canonical v) :: canonicalFields rest

end

mutual

theorem same_iff : (v w : Json) → (v.same w = true ↔ v.canonical = w.canonical)
  | .float x, w => by cases w <;> simp [same, canonical, Double.same_iff]
  | .arr items, w => by cases w <;> simp [same, canonical, sameItems_iff items]
  | .obj fields, w => by cases w <;> simp [same, canonical, sameFields_iff fields]
  | .null, w => by cases w <;> simp [same, canonical]
  | .bool b, w => by cases w <;> simp [same, canonical]
  | .int n, w => by cases w <;> simp [same, canonical]
  | .str s, w => by cases w <;> simp [same, canonical]

theorem sameItems_iff : (vs ws : List Json) → (sameItems vs ws = true ↔ canonicalItems vs = canonicalItems ws)
  | [], ws => by cases ws <;> simp [sameItems, canonicalItems]
  | v :: rest, ws => by cases ws <;> simp [sameItems, canonicalItems, same_iff v, sameItems_iff rest]

theorem sameFields_iff : (vs ws : List (String × Json)) →
    (sameFields vs ws = true ↔ canonicalFields vs = canonicalFields ws)
  | [], ws => by cases ws <;> simp [sameFields, canonicalFields]
  | (key, v) :: rest, ws => by
    cases ws <;> simp [sameFields, canonicalFields, same_iff v, sameFields_iff rest, and_assoc]

end

end Json

/-! ## Schemas -/

namespace Schema

mutual

def canonical : Schema → Schema
  | ⟨ref, ty, format, title, description, items, properties, required, enumValues, additional, allOf, oneOf, anyOf,
      nullable, deprecated⟩ =>
    ⟨ref, ty, format, title, description, canonicalOption items, canonicalProperties properties, required,
      enumValues.map Json.canonicalItems, canonicalAdditional additional, canonicalBranches allOf,
      canonicalBranches oneOf, canonicalBranches anyOf, nullable, deprecated⟩

def canonicalOption : Option Schema → Option Schema
  | none => none
  | some s => some (canonical s)

def canonicalAdditional : Option (Additional Schema) → Option (Additional Schema)
  | none => none
  | some (.allowed yes) => some (.allowed yes)
  | some (.schema s) => some (.schema (canonical s))

def canonicalBranches : Option (List Schema) → Option (List Schema)
  | none => none
  | some branches => some (canonicalList branches)

def canonicalList : List Schema → List Schema
  | [] => []
  | s :: rest => canonical s :: canonicalList rest

def canonicalProperties : Option (List (String × Schema)) → Option (List (String × Schema))
  | none => none
  | some properties => some (canonicalFields properties)

def canonicalFields : List (String × Schema) → List (String × Schema)
  | [] => []
  | (key, s) :: rest => (key, canonical s) :: canonicalFields rest

end

theorem sameEnum_iff (a b : Option (List Json)) :
    sameEnum a b = true ↔ a.map Json.canonicalItems = b.map Json.canonicalItems := by
  cases a <;> cases b <;> simp [sameEnum, Json.sameItems_iff]

mutual

theorem same_iff : (s t : Schema) → (s.same t = true ↔ s.canonical = t.canonical)
  | ⟨_, _, _, _, _, items, properties, _, enumValues, additional, allOf, oneOf, anyOf, _, _⟩, t => by
    obtain ⟨_, _, _, _, _, _, _, _, _, _, _, _, _, _, _⟩ := t
    simp only [same, canonical, Bool.and_eq_true, beq_iff_eq, sameOption_iff items, sameProperties_iff properties,
      sameEnum_iff, sameAdditional_iff additional, sameBranches_iff allOf, sameBranches_iff oneOf,
      sameBranches_iff anyOf, mk.injEq, and_assoc]

theorem sameOption_iff : (a b : Option Schema) → (sameOption a b = true ↔ canonicalOption a = canonicalOption b)
  | none, b => by cases b <;> simp [sameOption, canonicalOption]
  | some s, b => by cases b <;> simp [sameOption, canonicalOption, same_iff s]

theorem sameAdditional_iff : (a b : Option (Additional Schema)) →
    (sameAdditional a b = true ↔ canonicalAdditional a = canonicalAdditional b)
  | none, b => by rcases b with _ | _ | _ <;> simp [sameAdditional, canonicalAdditional]
  | some (.allowed yes), b => by rcases b with _ | _ | _ <;> simp [sameAdditional, canonicalAdditional]
  | some (.schema s), b => by rcases b with _ | _ | _ <;> simp [sameAdditional, canonicalAdditional, same_iff s]

theorem sameBranches_iff : (a b : Option (List Schema)) →
    (sameBranches a b = true ↔ canonicalBranches a = canonicalBranches b)
  | none, b => by cases b <;> simp [sameBranches, canonicalBranches]
  | some branches, b => by cases b <;> simp [sameBranches, canonicalBranches, sameList_iff branches]

theorem sameList_iff : (as bs : List Schema) → (sameList as bs = true ↔ canonicalList as = canonicalList bs)
  | [], bs => by cases bs <;> simp [sameList, canonicalList]
  | s :: rest, bs => by cases bs <;> simp [sameList, canonicalList, same_iff s, sameList_iff rest]

theorem sameProperties_iff : (a b : Option (List (String × Schema))) →
    (sameProperties a b = true ↔ canonicalProperties a = canonicalProperties b)
  | none, b => by cases b <;> simp [sameProperties, canonicalProperties]
  | some properties, b => by cases b <;> simp [sameProperties, canonicalProperties, sameFields_iff properties]

theorem sameFields_iff : (as bs : List (String × Schema)) →
    (sameFields as bs = true ↔ canonicalFields as = canonicalFields bs)
  | [], bs => by cases bs <;> simp [sameFields, canonicalFields]
  | (key, s) :: rest, bs => by
    rcases bs with _ | ⟨⟨_, _⟩, _⟩ <;> simp [sameFields, canonicalFields, same_iff s, sameFields_iff rest, and_assoc]

end

theorem same_refl (s : Schema) : s.same s = true := (same_iff s s).mpr rfl

/-- Two schemas are the same when a third is the same as each of them. -/
theorem same_of_common {s t u : Schema} (ht : s.same t = true) (hu : s.same u = true) : t.same u = true :=
  (same_iff t u).mpr (((same_iff s t).mp ht).symm.trans ((same_iff s u).mp hu))

end Schema

end ClientGen
