import ClientGen.Proofs.Names.Component
import ClientGen.Proofs.Names.Extended
import ClientGen.Proofs.Run.Type

/-
  ClientGen.Proofs.Names.Singular — singulars, and the enums that are named by them.

  A singular is the name with one ending replaced. The cut is where a character begins, and
  something is kept in front of it (`singular_replaces`). As a singular is its own singular, an enum
  has one name however often the singular is taken on the way to it (`StablyNamed`): arrays take it
  for their items, declaring takes it once more, and references to a component take it once.
-/

namespace ClientGen

namespace Name

theorem singular_replaces (s : String) : ∃ ending ∈ endings, ∃ kept,
    s = kept ++ ending.1 ∧ singular s = kept ++ ending.2 ∧ (s ≠ "" → kept ≠ "") := by
  obtain ⟨ending, hending, kept, hs, hsingular, hkept⟩ := singularReversed_replaces s.toList.reverse
  refine ⟨ending, hending, String.ofList kept.reverse, ?_, ?_, fun hne => ?_⟩
  · rw [← String.toList_inj, ← List.reverse_inj, hs]
    simp
  · rw [singular, singularChars, hsingular, ← String.toList_inj]
    simp
  · have hchars : s.toList.reverse ≠ [] := by simpa using hne
    simpa using hkept hchars

theorem singular_ne_empty {s : String} (hs : s ≠ "") : singular s ≠ "" := by
  obtain ⟨ending, -, kept, -, hsingular, hkept⟩ := singular_replaces s
  rw [hsingular, ne_eq, String.append_eq_empty_iff, not_and]
  exact fun hempty => absurd hempty (hkept hs)

/-- An ending is cut off where a character begins, counted in bytes. -/
theorem isValid_cut {s kept ending : String} (h : s = kept ++ ending) :
    (String.Pos.Raw.mk (s.utf8ByteSize - ending.utf8ByteSize)).IsValid s := by
  refine String.Pos.Raw.isValid_iff_exists_append.mpr ⟨kept, ending, h, ?_⟩
  rw [h, String.utf8ByteSize_append, Nat.add_sub_cancel]
  rfl

end Name

/-! ## Enums -/

def TypeRef.arrays (t : TypeRef) : Nat → TypeRef
  | 0 => t
  | depth + 1 => .array (t.arrays depth)

/-- What arrays around a schema make of what it gives. -/
def Resolution.inArrays (depth : Nat) (r : Resolution) : Resolution := ⟨r.type.arrays depth, r.declarations⟩

/-- The schema inside `depth` arrays. -/
inductive ArraysOf (inner : Schema) : Nat → Schema → Prop
  | self : ArraysOf inner 0 inner
  | array {depth : Nat} {sch items : Schema} : sch.shape = .array (some items) → ArraysOf inner depth items →
      ArraysOf inner (depth + 1) sch

namespace Resolve

variable {doc : Document} {e sch : Schema} {values : List Json} {depth : Nat}

theorem enumeration_singular (e : Schema) (name : String) : enumeration e (Name.singular name) = enumeration e name := by
  rw [enumeration, enumeration, Name.singular_singular]

/-- Arrays around an enum take singulars of its name, which the enum does not see. -/
theorem resolveAt_arrays (hshape : e.shape = .enumeration values) (h : ArraysOf e depth sch) (fuel : Nat) (name : String)
    (position : Position) :
    resolveAt doc (fuel + depth + 1) sch name position = Resolution.inArrays depth <$> enumeration e name := by
  induction h generalizing name position with
  | self =>
    rw [resolveAt, step, hshape]
    exact (id_map (enumeration e name)).symm
  | @array depth sch items harray _ ih =>
    rw [resolveAt, step, harray]
    dsimp only
    rw [← Nat.add_assoc, ih, enumeration_singular, bind_map_left, ← map_eq_pure_bind]
    rfl

theorem declareComponent_enum (hshape : e.shape = .enumeration values) (fuel : Nat) (key : String) :
    declareComponent doc (fuel + 1) key e = Resolution.declarations <$> enumeration e (Name.identifier key) := by
  have hself : declaresItself e.shape = true := by
    rw [hshape]
    rfl
  rw [declareComponent, if_pos hself, resolveAt, step, hshape, map_eq_pure_bind]

/-- However an enum is reached, it is declared as `enumeration` does under the name at which the way to it
    began, and its type is the singular of that name. -/
structure StablyNamed (doc : Document) (e : Schema) : Prop where
  type : ∀ {name s r s'}, Runs (enumeration e name) s r s' → r.type = .named (Name.singular name)
  again : ∀ name, enumeration e (Name.singular name) = enumeration e name
  items : ∀ {depth sch}, ArraysOf e depth sch → ∀ fuel name position,
    resolveAt doc (fuel + depth + 1) sch name position = Resolution.inArrays depth <$> enumeration e name
  component : ∀ fuel key,
    declareComponent doc (fuel + 1) key e = Resolution.declarations <$> enumeration e (Name.identifier key)
  references : ∀ {key}, KeyMap.get? doc.components.schemas key = some e → '/' ∉ key.toList →
    referenceType doc (schemaRefStart ++ key) = .named (Name.singular (Name.identifier key))

theorem stablyNamed (doc : Document) (hshape : e.shape = .enumeration values) : StablyNamed doc e where
  type h := type_of_declaring h
  again := enumeration_singular e
  items h fuel name position := resolveAt_arrays hshape h fuel name position
  component := declareComponent_enum hshape
  references hget hkey := by
    rw [referenceType_component hget hkey, componentTypeName, Option.any_some, Schema.isEnum_of_shape hshape, if_pos rfl]

end Resolve

open Resolve

/-- A singular is its own singular, is empty for the empty name only, and is cut where a character begins.
    So an enum is named in one way wherever it stands. -/
theorem singular_stable :
    (∀ s, Name.singular (Name.singular s) = Name.singular s) ∧ (∀ s, s ≠ "" → Name.singular s ≠ "") ∧
      (∀ s, ∃ ending ∈ Name.endings, (String.Pos.Raw.mk (s.utf8ByteSize - ending.1.utf8ByteSize)).IsValid s ∧
        ∃ kept, s = kept ++ ending.1 ∧ Name.singular s = kept ++ ending.2) ∧
      ∀ doc e values, Schema.shape e = .enumeration values → StablyNamed doc e := by
  refine ⟨Name.singular_singular, fun s hs => Name.singular_ne_empty hs, fun s => ?_, fun doc e values hshape =>
    stablyNamed doc hshape⟩
  obtain ⟨ending, hending, kept, hs, hsingular, -⟩ := Name.singular_replaces s
  exact ⟨ending, hending, Name.isValid_cut hs, kept, hs, hsingular⟩

def redRows : Schema := { Schema.blank with type := some (.single "array"), items := some reds }

theorem singular_stable_colors :
    "Colors" ≠ "" ∧ Name.singular "Colors" ≠ "" ∧ reds.shape = .enumeration [.str "red"] ∧ ArraysOf reds 1 redRows ∧
      KeyMap.get? referringEnum.components.schemas "Colors" = some reds ∧ '/' ∉ "Colors".toList ∧
      resolveAt referringEnum 2 redRows "Colors" .nested = Resolution.inArrays 1 <$> enumeration reds "Colors" ∧
      referenceType referringEnum (schemaRefStart ++ "Colors") = .named (Name.singular (Name.identifier "Colors")) := by
  obtain ⟨-, hne, -, henum⟩ := singular_stable
  have hshape : reds.shape = .enumeration [.str "red"] := rfl
  have harrays : ArraysOf reds 1 redRows := .array rfl .self
  have hget : KeyMap.get? referringEnum.components.schemas "Colors" = some reds := rfl
  have hnamed := henum referringEnum reds _ hshape
  exact ⟨by decide, hne "Colors" (by decide), hshape, harrays, hget, by decide, hnamed.items harrays 0 "Colors" .nested,
    hnamed.references hget (by decide)⟩

end ClientGen
