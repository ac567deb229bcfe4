import ClientGen.Proofs.Merge.Reached
import ClientGen.Proofs.Names.Emission

/-
  ClientGen.Proofs.Fuel.Opened — the schemas that resolving a schema opens.

  `opened` lists them, each at the position at which it is resolved. Resolving runs out of fuel
  only inside one of them (`runsOut_step`), and on the way there
  - either the schema claimed a name, and what it opens may come from any component (`allOf`),
  - or what it opens is smaller than the schema.
-/

namespace ClientGen

namespace Resolve

variable {doc : Document} {resolve : Resolver} {s s' : Session} {sch : Schema} {name : String} {position : Position}

/-- The properties of the parts of a merge. -/
def mergedProperties (doc : Document) (sch : Schema) (branches : List Schema) : List Schema :=
  (mergeParts doc sch branches).flatMap fun
    | .schema part => part.propertyList.map (·.2)
    | .dangling _ => []

def openedByAllOf (doc : Document) (sch : Schema) : Position → List Schema → List (Schema × Position)
  | .component, branches => (mergedProperties doc sch branches).map (·, .allOfProperty)
  | position, [branch] => [(branch, position)]
  | .nested, branches => (mergedProperties doc sch branches).map (·, .allOfProperty)
  | .allOfProperty, _ => []

theorem openedByAllOf_nested (doc : Document) (sch : Schema) {branches : List Schema}
    (h : ∀ branch, branches ≠ [branch]) :
    openedByAllOf doc sch .nested branches = (mergedProperties doc sch branches).map (·, .allOfProperty) := by
  cases branches with
  | nil => rfl
  | cons branch rest =>
    cases rest with
    | nil => exact absurd rfl (h branch)
    | cons _ _ => rfl

/-- The schemas that are resolved when one is, each at its position. -/
def opened (doc : Document) (sch : Schema) (position : Position) : List (Schema × Position) :=
  match sch.shape with
  | .array (some items) => [(items, itemPosition position)]
  | .object =>
    if !sch.hasProperties && sch.allowsAdditional then sch.additionalSchema.toList.map (·, .nested)
    else sch.propertyList.map fun e => (e.2, .nested)
  | .oneOf branches => branches.map (·, .nested)
  | .allOf branches => openedByAllOf doc sch position branches
  | _ => []

/-! ## The number of names -/

/-- How many names the registry of a session has. -/
def names (s : Session) : Nat := s.registry.keys.length

theorem names_le_of_adds {ds : List Declaration} (h : Adds s.registry ds s'.registry) : names s ≤ names s' := by
  have := h.names.length_eq
  rw [List.length_append] at this
  unfold names
  omega

theorem names_claimed {origin : Option Schema} (h : name ∉ s.registry.keys) :
    names (claimed s name origin) = names s + 1 := (KeyMap.keys_insert_perm h _).length_eq

/-- Resolving `sch` at `position` runs out in `s'`, from a session with at least the names of `s`. -/
def OutInside (resolve : Resolver) (s : Session) (c : Schema × Position) (s' : Session) : Prop :=
  ∃ name t, names s ≤ names t ∧ RunsOut (resolve c.1 name c.2) t s'

theorem OutInside.mono {c : Schema × Position} {t : Session} (h : OutInside resolve t c s') (hle : names s ≤ names t) :
    OutInside resolve s c s' := by
  obtain ⟨name, u, hu, hout⟩ := h
  exact ⟨name, u, by omega, hout⟩

/-! ## Lists -/

theorem runsOut_structFields (hr : EmitsAll resolve) {isRequired : String → Bool} {parent : String}
    {properties : List (String × Schema)}
    (h : RunsOut (structFields resolve isRequired parent position properties) s s') :
    ∃ e ∈ properties, OutInside resolve s (e.2, position) s' := by
  induction properties generalizing s with
  | nil => simp [structFields] at h
  | cons e rest ih =>
    simp only [structFields, runsOut_bind, not_runsOut_pure, and_false, exists_false, or_false] at h
    rcases h with h | ⟨r, t, hone, h⟩
    · exact ⟨e, List.mem_cons_self, _, s, Nat.le_refl _, h⟩
    · obtain ⟨x, hx, hout⟩ := ih h
      exact ⟨x, List.mem_cons_of_mem e hx, hout.mono (names_le_of_adds (hr hone).toAdds)⟩

theorem runsOut_sumVariants (hr : EmitsAll resolve) {number : Nat} {labels : NameSet} {branches : List Schema}
    (h : RunsOut (sumVariants resolve name number labels branches) s s') :
    ∃ b ∈ branches, OutInside resolve s (b, .nested) s' := by
  induction branches generalizing s number labels with
  | nil => simp [sumVariants] at h
  | cons branch rest ih =>
    simp only [sumVariants, runsOut_bind, not_runsOut_pure, and_false, exists_false, or_false] at h
    rcases h with h | ⟨r, t, hone, h⟩
    · exact ⟨branch, List.mem_cons_self, _, s, Nat.le_refl _, h⟩
    · obtain ⟨b, hb, hout⟩ := ih h
      exact ⟨b, List.mem_cons_of_mem branch hb, hout.mono (names_le_of_adds (hr hone).toAdds)⟩

theorem runsOut_partFields (hr : EmitsAll resolve) {number : Nat} {seen : List String} {parts : List Part}
    (h : RunsOut (partFields resolve sch name number seen parts) s s') :
    ∃ part e, .schema part ∈ parts ∧ e ∈ part.propertyList ∧ OutInside resolve s (e.2, .allOfProperty) s' := by
  induction parts generalizing s number seen with
  | nil => simp [partFields] at h
  | cons part rest ih =>
    have hrest {number : Nat} {seen : List String} {t : Session} (hle : names s ≤ names t)
        (h : RunsOut (partFields resolve sch name number seen rest) t s') :
        ∃ p e, .schema p ∈ part :: rest ∧ e ∈ p.propertyList ∧ OutInside resolve s (e.2, .allOfProperty) s' := by
      obtain ⟨p, e, hp, he, hout⟩ := ih h
      exact ⟨p, e, List.mem_cons_of_mem part hp, he, hout.mono hle⟩
    cases part with
    | dangling reference =>
      simp only [partFields, runsOut_bind, not_runsOut_report, runs_report, false_or] at h
      obtain ⟨_, t, ht, h⟩ := h
      exact hrest (by rw [← ht]; exact Nat.le_refl _) h
    | schema branch =>
      simp only [partFields] at h
      split at h
      · simp only [runsOut_bind, not_runsOut_pure, and_false, exists_false, or_false] at h
        rcases h with h | ⟨⟨own, ownDs⟩, t, hown, h⟩
        · obtain ⟨e, he, hout⟩ := runsOut_structFields hr h
          exact ⟨branch, e, List.mem_cons_self, (List.mem_filter.mp he).1, hout⟩
        · exact hrest (names_le_of_adds (structFields_emits hr hown).toAdds) h
      · simp only [runsOut_bind, not_runsOut_report, runs_report, false_or] at h
        obtain ⟨_, t, ht, h⟩ := h
        exact hrest (by rw [← ht]; exact Nat.le_refl _) h

/-! ## One schema -/

/-- How resolving a schema gets to one that it opens. -/
def Reaches (s : Session) (sch : Schema) (c : Schema × Position) (resolve : Resolver) (s' : Session) : Prop :=
  (∃ t, names t = names s + 1 ∧ OutInside resolve t c s') ∨ (OutInside resolve s c s' ∧ sizeOf c.1 < sizeOf sch)

theorem runsOut_freeFormMap (h : RunsOut (freeFormMap resolve sch name) s s') :
    ∃ value, sch.additionalSchema = some value ∧ Reaches s sch (value, .nested) resolve s' := by
  obtain ⟨hn, h⟩ := runsOut_declaring h
  split at h
  · simp at h
  · rename_i value hvalue
    split at h
    · simp at h
    · simp only [runsOut_bind, not_runsOut_pure, and_false, exists_false, or_false] at h
      exact ⟨value, hvalue, .inl ⟨_, names_claimed hn, _, _, Nat.le_refl _, h⟩⟩

theorem runsOut_mergeAllOf (hr : EmitsAll resolve) {branches : List Schema}
    (h : RunsOut (mergeAllOf doc resolve sch branches name) s s') :
    ∃ c ∈ (mergedProperties doc sch branches).map (·, .allOfProperty), Reaches s sch c resolve s' := by
  obtain ⟨hn, h⟩ := runsOut_declaring h
  simp only [runsOut_bind, not_runsOut_pure, and_false, exists_false, or_false] at h
  obtain ⟨part, e, hpart, he, hout⟩ := runsOut_partFields hr h
  refine ⟨(e.2, .allOfProperty), List.mem_map_of_mem ?_, .inl ⟨_, names_claimed hn, hout⟩⟩
  exact List.mem_flatMap.mpr ⟨.schema part, hpart, List.mem_map_of_mem he⟩

theorem runsOut_object (hr : EmitsAll resolve) (hshape : sch.shape = .object)
    (h : RunsOut (object resolve sch name) s s') : ∃ c ∈ opened doc sch position, Reaches s sch c resolve s' := by
  have hopened : opened doc sch position =
      if !sch.hasProperties && sch.allowsAdditional then sch.additionalSchema.toList.map (·, .nested)
      else sch.propertyList.map fun e => (e.2, .nested) := by rw [opened, hshape]
  rw [hopened]
  unfold object at h
  split at h
  · rename_i hmap
    rw [if_pos hmap]
    obtain ⟨value, hvalue, hreach⟩ := runsOut_freeFormMap h
    exact ⟨(value, .nested), List.mem_map_of_mem (Option.mem_toList.mpr hvalue), hreach⟩
  · rename_i hmap
    rw [if_neg hmap]
    obtain ⟨hn, h⟩ := runsOut_declaring h
    simp only [runsOut_bind, not_runsOut_pure, and_false, exists_false, or_false] at h
    obtain ⟨e, he, hout⟩ := runsOut_structFields hr h
    exact ⟨(e.2, .nested), List.mem_map_of_mem (f := fun e : String × Schema => (e.2, Position.nested)) he,
      .inl ⟨_, names_claimed hn, hout⟩⟩

theorem not_runsOut_enumeration : ¬ RunsOut (enumeration sch name) s s' := by
  intro h
  obtain ⟨-, h⟩ := runsOut_declaring h
  split at h <;> simp at h

/-- Running out happens inside a schema that is opened. -/
theorem runsOut_step (hr : EmitsAll resolve) (h : RunsOut (step doc resolve sch name position) s s') :
    ∃ c ∈ opened doc sch position, Reaches s sch c resolve s' := by
  unfold step at h
  split at h <;> rename_i hshape
  · simp at h
  · exact absurd h not_runsOut_enumeration
  · simp at h
  · simp at h
  · rename_i items
    simp only [runsOut_bind, not_runsOut_pure, and_false, exists_false, or_false] at h
    refine ⟨(items, itemPosition position), by rw [opened, hshape]; exact List.mem_cons_self, .inr ⟨?_, ?_⟩⟩
    · exact ⟨_, s, Nat.le_refl _, h⟩
    · exact Schema.sizeOf_lt_of_items (Schema.items_of_shape hshape)
  · exact runsOut_object hr hshape h
  · rename_i branches
    obtain ⟨hn, h⟩ := runsOut_declaring h
    simp only [runsOut_bind, not_runsOut_pure, and_false, exists_false, or_false] at h
    obtain ⟨b, hb, hout⟩ := runsOut_sumVariants hr h
    refine ⟨(b, .nested), ?_, .inl ⟨_, names_claimed hn, hout⟩⟩
    rw [opened, hshape]
    exact List.mem_map_of_mem hb
  · simp at h
  · rename_i branches
    have hopened : opened doc sch position = openedByAllOf doc sch position branches := by rw [opened, hshape]
    rw [hopened]
    split at h
    · exact runsOut_mergeAllOf hr h
    · rename_i branch hposition
      refine ⟨(branch, position), ?_, .inr ⟨⟨name, s, Nat.le_refl _, h⟩, ?_⟩⟩
      · cases position with
        | component => exact absurd rfl hposition
        | nested => exact List.mem_cons_self
        | allOfProperty => exact List.mem_cons_self
      · exact Schema.sizeOf_lt_of_allOf (Schema.allOf_of_shape hshape) List.mem_cons_self
    · rename_i hsingle
      rw [openedByAllOf_nested doc sch hsingle]
      exact runsOut_mergeAllOf hr h
    · simp at h
  · simp at h

end Resolve

end ClientGen
