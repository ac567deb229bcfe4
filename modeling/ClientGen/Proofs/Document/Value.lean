import ClientGen.Document.Source

/-
  ClientGen.Proofs.Document.Value — in a value that is read every object lists its keys in order.

  Whatever a text is written in, an object is made from its fields by `Json.object`, which sorts
  them. So what a reader yields is sorted as soon as what it reads inside of that is: one lemma
  for each reader of the grammar, and an induction on the depth that is left (`Json.read_sorted`,
  `Yaml.read_sorted`).
-/

namespace ClientGen

/-- Every object in the value lists its keys in order. -/
inductive Json.Sorted : Json → Prop
  | null : Sorted .null
  | bool (b : Bool) : Sorted (.bool b)
  | int (n : Int) : Sorted (.int n)
  | float (x : Double) : Sorted (.float x)
  | str (s : String) : Sorted (.str s)
  | arr {items : List Json} : (∀ v ∈ items, Sorted v) → Sorted (.arr items)
  | obj {fields : KeyMap Json} : KeyMap.Sorted fields → (∀ e ∈ fields, Sorted e.2) → Sorted (.obj fields)

/-- Whatever order the fields are written in. -/
theorem Json.object_sorted {fields : List (String × Json)} (h : ∀ e ∈ fields, e.2.Sorted) :
    (Json.object fields).Sorted :=
  .obj (KeyMap.sorted_ofList fields) fun e he => h e (KeyMap.mem_of_mem_ofList he)

/-! ## JSON text -/

namespace Json

/-- Whatever the reader gives has the property. -/
def Yields {α : Type} (P : α → Prop) (read : List Char → Option (α × List Char)) : Prop :=
  ∀ {cs a rest}, read cs = some (a, rest) → P a

variable {α : Type} {P : α → Prop} {element : List Char → Option (α × List Char)} {close : Char}

theorem separated_yields (h : Yields P element) (bound : Nat) :
    Yields (fun as : List α => ∀ a ∈ as, P a) (separated element close bound) := by
  induction bound with
  | zero =>
    intro cs as rest hread
    cases hread
  | succ bound ih =>
    intro cs as rest hread
    simp only [separated, Option.bind_eq_bind, Option.bind_eq_some_iff] at hread
    obtain ⟨⟨a, afterFirst⟩, hfirst, hread⟩ := hread
    split at hread
    · simp only [Option.bind_eq_some_iff, Option.pure_def, Option.some.injEq, Prod.mk.injEq] at hread
      obtain ⟨⟨more, afterRest⟩, hmore, rfl, rfl⟩ := hread
      exact List.forall_mem_cons.mpr ⟨h hfirst, ih hmore⟩
    · split at hread
      · simp only [Option.pure_def, Option.some.injEq, Prod.mk.injEq] at hread
        obtain ⟨rfl, -⟩ := hread
        exact List.forall_mem_singleton.mpr (h hfirst)
      · cases hread
    · cases hread

theorem enclosed_yields (h : Yields P element) (bound : Nat) :
    Yields (fun as : List α => ∀ a ∈ as, P a) (enclosed element close bound) := by
  intro cs as rest hread
  unfold enclosed at hread
  split at hread
  · split at hread
    · cases hread
      exact List.forall_mem_nil _
    · exact separated_yields h bound hread
  · cases hread

theorem field_yields {value : List Char → Option (Json × List Char)} (h : Yields Sorted value) :
    Yields (fun e => e.2.Sorted) (field value) := by
  intro cs e rest hread
  unfold field at hread
  split at hread
  · simp only [Option.bind_eq_bind, Option.bind_eq_some_iff] at hread
    obtain ⟨⟨key, afterKey⟩, -, hread⟩ := hread
    split at hread
    · simp only [Option.bind_eq_some_iff, Option.pure_def, Option.some.injEq, Prod.mk.injEq] at hread
      obtain ⟨⟨v, afterValue⟩, hvalue, rfl, -⟩ := hread
      exact h hvalue
    · cases hread
  · cases hread

theorem numeral_sorted {t : Numeral} {v : Json} (h : t.value? = some v) : v.Sorted := by
  have hfloat : t.double?.map Json.float = some v → v.Sorted := by
    intro h
    obtain ⟨x, -, rfl⟩ := Option.map_eq_some_iff.mp h
    exact .float x
  simp only [Numeral.value?] at h
  split at h
  · exact hfloat h
  · split at h
    · split at h
      · cases h
        exact .int _
      · exact hfloat h
    · split at h
      · cases h
        exact .int _
      · exact hfloat h

theorem sorted_of_map {f : α → Json × List Char} {o : Option α} {v : Json} {rest : List Char}
    (h : o.map f = some (v, rest)) (hf : ∀ a, o = some a → (f a).1.Sorted) : v.Sorted := by
  obtain ⟨a, ha, hfa⟩ := Option.map_eq_some_iff.mp h
  have := hf a ha
  rwa [hfa] at this

/-- A container holds values that are nested one level less deep. -/
theorem value_yields_step {bound depth : Nat} (h : ∀ inner, depth = inner + 1 → Yields Sorted (value bound inner)) :
    Yields Sorted (value bound depth) := by
  intro cs v rest hread
  rw [value.eq_def] at hread
  split at hread
  case h_1 => exact sorted_of_map hread fun _ _ => .null
  case h_2 => exact sorted_of_map hread fun _ _ => .bool true
  case h_3 => exact sorted_of_map hread fun _ _ => .bool false
  case h_4 => exact sorted_of_map hread fun _ _ => .str _
  case h_5 =>
    cases depth with
    | zero => cases hread
    | succ depth => exact sorted_of_map hread fun _ hitems => .arr (enclosed_yields (h depth rfl) bound hitems)
  case h_6 =>
    cases depth with
    | zero => cases hread
    | succ depth =>
      refine sorted_of_map hread fun _ hfields => object_sorted ?_
      exact enclosed_yields (field_yields (h depth rfl)) bound hfields
  case h_7 =>
    simp only [Option.bind_eq_bind, Option.bind_eq_some_iff, Option.pure_def, Option.some.injEq, Prod.mk.injEq] at hread
    obtain ⟨_, -, _, hv, rfl, -⟩ := hread
    exact numeral_sorted hv

theorem value_yields (bound depth : Nat) : Yields Sorted (value bound depth) := by
  induction depth with
  | zero => exact value_yields_step fun inner h => absurd h (Nat.succ_ne_zero inner).symm
  | succ depth ih => exact value_yields_step fun inner h => Nat.succ.inj h ▸ ih

theorem read_sorted {text : String} {v : Json} (h : read? text = some v) : v.Sorted := by
  unfold read? at h
  split at h
  · rename_i hread
    split at h
    · cases h
      exact value_yields _ _ hread
    · cases h
  · cases h

end Json

/-! ## YAML text -/

namespace Yaml

/-- Whatever the reader gives has the property. -/
def Yields {α : Type} (P : α → Prop) (read : EventReader α) : Prop :=
  ∀ {es aliases a rest more}, read es aliases = some (a, rest, more) → P a

variable {α : Type} {P : α → Prop} {read : EventReader α}

theorem followAlias_yields (targets : List (Nat × Events)) (h : Yields P read) :
    Yields P (followAlias targets read) := by
  intro es aliases a rest more hread
  unfold followAlias at hread
  split at hread
  · simp only [Option.bind_eq_bind, Option.bind_eq_some_iff, Option.pure_def, Option.some.injEq, Prod.mk.injEq] at hread
    obtain ⟨_, -, ⟨_, _, _⟩, htarget, rfl, -⟩ := hread
    exact h htarget
  · cases hread
  · exact h hread

theorem itemsUpTo_yields (h : Yields P read) (bound : Nat) :
    Yields (fun as : List α => ∀ a ∈ as, P a) (itemsUpTo read bound) := by
  induction bound with
  | zero =>
    intro es aliases as rest more hread
    rw [itemsUpTo] at hread
    cases hread
  | succ bound ih =>
    intro es aliases as rest more hread
    rw [itemsUpTo.eq_def] at hread
    split at hread
    · cases hread
    · cases hread
      exact List.forall_mem_nil _
    · cases hread
      exact List.forall_mem_nil _
    · simp only [Option.bind_eq_bind, Option.bind_eq_some_iff, Option.pure_def, Option.some.injEq, Prod.mk.injEq] at hread
      rename_i heq _ _
      cases heq
      obtain ⟨⟨_, _, _⟩, hfirst, ⟨_, _, _⟩, hmore, rfl, -⟩ := hread
      exact List.forall_mem_cons.mpr ⟨h hfirst, ih hmore⟩

theorem pair_yields {key : EventReader String} {value : EventReader Json} (h : Yields Json.Sorted value) :
    Yields (fun e => e.2.Sorted) (pair key value) := by
  intro es aliases e rest more hread
  simp only [pair, Option.bind_eq_bind, Option.bind_eq_some_iff, Option.pure_def, Option.some.injEq, Prod.mk.injEq] at hread
  obtain ⟨⟨_, _, _⟩, -, ⟨_, _, _⟩, hvalue, rfl, -⟩ := hread
  exact h hvalue

theorem float_sorted {text : String} {v : Json} (h : float? text = some v) : v.Sorted := by
  unfold float? at h
  split at h
  · cases h
    exact .null
  · split at h
    all_goals
      obtain ⟨x, -, rfl⟩ := Option.map_eq_some_iff.mp h
      exact .float x

theorem plainValue_sorted {text : String} {v : Json} (h : plainValue? text = some v) : v.Sorted := by
  unfold plainValue? at h
  split at h
  · cases h
    exact .null
  · split at h
    · cases h
      exact .bool _
    · split at h
      · cases h
        exact .int _
      · cases h
      · split at h
        · rename_i hfloat
          cases h
          split at hfloat
          · cases hfloat
          · exact float_sorted hfloat
        · cases h
          exact .str _

theorem scalarValue_sorted {tag : Option String} {plain : Bool} {text : String} {v : Json}
    (h : scalarValue? tag plain text = some v) : v.Sorted := by
  unfold scalarValue? at h
  split at h
  · split at h
    · exact plainValue_sorted h
    · cases h
      exact .str _
  · split at h
    · cases h
    · split at h
      · obtain ⟨b, -, rfl⟩ := Option.map_eq_some_iff.mp h
        exact .bool b
      · split at h
        · split at h
          · cases h
            exact .int _
          · cases h
        · split at h
          · exact float_sorted h
          · split at h
            · split at h
              · cases h
                exact .null
              · cases h
            · cases h
              exact .str _

theorem nodeValue_yields (targets : List (Nat × Events)) (bound : Nat) {inner : Option (EventReader Json)}
    (h : ∀ read, inner = some read → Yields Json.Sorted read) :
    Yields Json.Sorted (nodeValue targets bound inner) := by
  intro es aliases v rest more hread
  unfold nodeValue at hread
  split at hread
  · obtain ⟨_, hscalar, heq⟩ := Option.map_eq_some_iff.mp hread
    cases heq
    exact scalarValue_sorted hscalar
  · split at hread
    · cases hread
    · simp only [Option.bind_eq_bind, Option.bind_eq_some_iff, Option.pure_def, Option.some.injEq, Prod.mk.injEq] at hread
      obtain ⟨read, hinner, _, hitems, rfl, -⟩ := hread
      exact .arr (itemsUpTo_yields (h read hinner) bound hitems)
  · split at hread
    · cases hread
    · simp only [Option.bind_eq_bind, Option.bind_eq_some_iff, Option.pure_def, Option.some.injEq, Prod.mk.injEq] at hread
      obtain ⟨read, hinner, _, hfields, rfl, -⟩ := hread
      exact Json.object_sorted (itemsUpTo_yields (pair_yields (h read hinner)) bound hfields)
  · cases hread

theorem value_yields (targets : List (Nat × Events)) (bound depth : Nat) :
    Yields Json.Sorted (value targets bound depth) := by
  induction depth with
  | zero => exact followAlias_yields targets (nodeValue_yields targets bound fun _ hnone => by cases hnone)
  | succ depth ih =>
    refine followAlias_yields targets (nodeValue_yields targets bound fun read hinner => ?_)
    cases hinner
    exact ih

theorem read_sorted {text : String} {v : Json} (h : read? text = some v) : v.Sorted := by
  simp only [read?, Option.bind_eq_bind, Option.bind_eq_some_iff] at h
  obtain ⟨_, -, _, -, _, -, h⟩ := h
  split at h
  · cases h
    exact .null
  · obtain ⟨_, hvalue, heq⟩ := Option.bind_eq_some_iff.mp h
    cases heq
    exact value_yields _ _ _ hvalue

end Yaml

theorem readSource_sorted {text : String} {hint : Option String} {v : Json} (h : readSource text hint = .ok v) :
    v.Sorted := by
  have hread {o : Option Json} {e : DocumentError} (ho : o.elim (.error e) Except.ok = .ok v) : o = some v := by
    cases o with
    | none => cases ho
    | some _ =>
      cases ho
      rfl
  unfold readSource at h
  split at h
  · exact Json.read_sorted (hread h)
  · split at h
    · exact Yaml.read_sorted (hread h)
    · rcases Option.or_eq_some_iff.mp (hread h) with hjson | ⟨-, hyaml⟩
      · exact Json.read_sorted hjson
      · exact Yaml.read_sorted hyaml

end ClientGen
