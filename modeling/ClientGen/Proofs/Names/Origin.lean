import ClientGen.Proofs.Run.Growing
import ClientGen.Proofs.Run.Schema

/-
  ClientGen.Proofs.Names.Origin — the schema that a name belongs to.

  A name belongs to the schema of its first claim, its origin. A run claims free names only, so
  a name that is in the registry keeps its origin until the end (`Session.Grows.origin_eq`): what
  is declared under a free name stays the declaration of its schema (`declared_origin`).
-/

namespace ClientGen

namespace Registry

variable {r r' : Registry} {name : String}

/-- The schema of the claim of a name; a name that nobody claimed has none. -/
def origin? (r : Registry) (name : String) : Option Schema := (KeyMap.get? r name).bind (·.origin)

@[simp] theorem origin_recorded (d : Declaration) (entry : RegistryEntry) : (recorded d entry).origin = entry.origin := by
  unfold recorded
  split <;> rfl

theorem origin_record (r : Registry) (d : Declaration) (name : String) : (r.record d).origin? name = r.origin? name := by
  rw [origin?, record, KeyMap.get?_modify]
  split
  · rw [origin?, Option.bind_map]
    congr 1
    funext entry
    exact origin_recorded d entry
  · rfl

theorem origin_claim (r : Registry) (name : String) (origin : Option Schema) :
    Registry.origin? (KeyMap.insert name ⟨origin, none, none⟩ r) name = origin := by
  rw [origin?, KeyMap.get?_insert_self, Option.bind_some]

end Registry

/-! ## Sessions that grow -/

namespace Session

variable {s s' : Session} {name : String}

/-- A step keeps the origins of the names that there are. -/
theorem Step.origin_eq (h : Step s s') (hn : name ∈ s.registry.keys) :
    s'.registry.origin? name = s.registry.origin? name := by
  cases h with
  | @claim other origin hfree =>
    have hne : name ≠ other := by
      rintro rfl
      exact hfree hn
    rw [Registry.origin?, Resolve.claimed, KeyMap.get?_insert_of_ne hne, Registry.origin?]
  | record d => exact Registry.origin_record s.registry d name
  | report _ => rfl

theorem Grows.origin_eq (h : Grows s s') (hn : name ∈ s.registry.keys) :
    s'.registry.origin? name = s.registry.origin? name := by
  induction h with
  | refl => rfl
  | tail hgrows hstep ih => rw [hstep.origin_eq (Session.Grows.mem_keys hgrows hn), ih]

end Session

namespace Resolve

variable {doc : Document} {resolve : Resolver} {s s' : Session} {sch : Schema} {name : String}

/-- What is built under a name leaves the name to its origin. -/
theorem built_origin (hr : GrowingAll resolve) {d : Declaration} {nested : List Declaration}
    (h : Built doc resolve sch name s d nested s') (hn : name ∈ s.registry.keys) :
    name ∈ s'.registry.keys ∧ s'.registry.origin? name = s.registry.origin? name := by
  have hgrows (hg : s.Grows s') : name ∈ s'.registry.keys ∧ s'.registry.origin? name = s.registry.origin? name :=
    ⟨hg.mem_keys hn, hg.origin_eq hn⟩
  have hsame (he : s'.registry = s.registry) :
      name ∈ s'.registry.keys ∧ s'.registry.origin? name = s.registry.origin? name := by
    rw [he]
    exact ⟨hn, rfl⟩
  cases h with
  | enumeration _ he => exact hsame he
  | opaqueEnum _ he => exact hsame he
  | opaqueMap => exact hsame rfl
  | map _ hv => exact hgrows (hr _ _ _ hv)
  | struct hf => exact hgrows (growing_compositional.structFields hr _ _ _ _ hf)
  | sum _ hv => exact hgrows (growing_compositional.sumVariants hr _ _ _ _ hv)
  | merged _ hf => exact hgrows (growing_compositional.partFields hr _ _ _ _ _ hf)

/-- A schema that is declared under a free name is the origin of that name, from then on. -/
theorem declared_origin (hr : GrowingAll resolve) {d : Declaration} {nested : List Declaration} {t : Session}
    (hb : Built doc resolve sch name (claimed s name (some sch)) d nested t) :
    (recorded t d).registry.origin? name = some sch := by
  obtain ⟨-, horigin⟩ := built_origin hr hb (mem_keys_claimed.mpr (.inl rfl))
  rw [recorded, Registry.origin_record, horigin]
  exact Registry.origin_claim _ _ _

end Resolve

end ClientGen
