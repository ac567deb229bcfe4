import ClientGen.Proofs.Names.Extended
import ClientGen.Proofs.Run.Composed

/-
  ClientGen.Proofs.Names.Nested — the names claimed for what is inside a schema.

  A run whose claims all have a property adds only such names to the registry and reports
  collisions of such names only (`ClaimsOnly`); sequences keep that (`claiming_claimwise`). The
  names beneath a name are passed on to names beneath it, however a schema nests
  (`beneath_passedOn`). A schema that declares a parent claims its own name and builds with claims
  beneath it, so all that it claims is that name or a longer one that begins with it
  (`nested_claims_extend`).
-/

namespace ClientGen

open Name

/-- Strictly longer, with the name in front. -/
def StrictlyExtends (name other : String) : Prop := ∃ ending, ending ≠ "" ∧ other = name ++ ending

variable {root name : String}

theorem Beneath.extends (h : Beneath root name) : StrictlyExtends root name := by
  obtain ⟨ending, ⟨c, rest, rfl, -⟩, heq⟩ := h
  refine ⟨String.ofList (c :: rest), ?_, ?_⟩
  · rw [ne_eq, ← String.toList_inj, String.toList_ofList]
    exact List.cons_ne_nil c rest
  · rw [← String.toList_inj, heq, String.toList_append, String.toList_ofList]

namespace Resolve

variable {P : String → Prop} {doc : Document} {fuel : Nat} {sch : Schema} {position : Position} {s s' s'' : Session}

/-! ## Claims -/

/-- Between two sessions, names with the property were claimed and no others, and reported as collisions
    if at all. -/
structure ClaimsOnly (P : String → Prop) (s s' : Session) : Prop where
  keys : ∀ key ∈ s'.registry.keys, key ∈ s.registry.keys ∨ P key
  collisions : ∃ ds, s'.diagnostics = s.diagnostics ++ ds ∧ ∀ d ∈ ds, d.kind = .nameCollision → P d.subject

theorem ClaimsOnly.refl (P : String → Prop) (s : Session) : ClaimsOnly P s s where
  keys _ hkey := .inl hkey
  collisions := ⟨[], (List.append_nil _).symm, List.forall_mem_nil _⟩

theorem ClaimsOnly.trans (h : ClaimsOnly P s s') (h' : ClaimsOnly P s' s'') : ClaimsOnly P s s'' where
  keys key hkey := (h'.keys key hkey).elim (h.keys key) .inr
  collisions := by
    obtain ⟨ds, hds, hcollisions⟩ := h.collisions
    obtain ⟨ds', hds', hcollisions'⟩ := h'.collisions
    refine ⟨ds ++ ds', by rw [hds', hds, List.append_assoc], fun d hd => ?_⟩
    exact (List.mem_append.mp hd).elim (hcollisions d) (hcollisions' d)

theorem Reclaimed.claimsOnly {origin : Option Schema} (hname : P name) (h : Reclaimed name origin s s') :
    ClaimsOnly P s s' := by
  cases h with
  | reuse _ _ => exact .refl P s
  | collision _ _ =>
    refine ⟨fun key hkey => .inl hkey, [.nameCollision name], rfl, fun d hd _ => ?_⟩
    rw [List.mem_singleton.mp hd]
    exact hname

/-- Every run of the computation claims names with the property only. -/
def Claiming (P : String → Prop) {α : Type} (x : Resolve α) : Prop := ∀ ⦃s a s'⦄, Runs x s a s' → ClaimsOnly P s s'

theorem claiming_claimwise (P : String → Prop) : Claimwise P (Claiming P) where
  answer a s b s' h := by
    obtain ⟨rfl, rfl⟩ := runs_pure.mp h
    exact .refl P s
  sequence hx hf s c s'' h := by
    obtain ⟨a, s', hfirst, hrest⟩ := runs_bind.mp h
    exact (hx hfirst).trans (hf a hrest)
  reports ds hds s u s' h := by
    obtain rfl := runs_reportAll.mp h
    exact ⟨fun key hkey => .inl hkey, ds, rfl, fun d hd hkind => absurd hkind (hds d hd)⟩
  claims hname origin s fresh s' h := by
    rcases runs_claim h with ⟨-, -, rfl⟩ | ⟨-, htaken⟩
    · refine ⟨fun key hkey => ?_, [], (List.append_nil _).symm, List.forall_mem_nil _⟩
      rcases mem_keys_claimed.mp hkey with rfl | hold
      · exact .inr hname
      · exact .inl hold
    · exact htaken.claimsOnly hname
  records d s e s' h := by
    obtain ⟨-, rfl⟩ := runs_finish.mp h
    exact ⟨fun key hkey => .inl (by rwa [keys_recorded] at hkey), [], (List.append_nil _).symm, List.forall_mem_nil _⟩
  runsOut := fun {_} _ _ _ h => by cases h

/-! ## Beneath a name -/

theorem beneath_passedOn (root : String) : PassedOn (Beneath root) where
  property _ h := h.append _
  option _ h := (h.append _).append _
  value h := h.append _
  singular h := h.singular

/-- What is inside a schema with the name claims names beneath it. -/
theorem inside_claiming (doc : Document) (fuel : Nat) (name : String) :
    Inside (Claiming (Beneath name)) (resolveAt doc fuel) name := by
  have hresolve {inner : String} (hinner : Beneath name inner) (sch : Schema) (position : Position) :
      Claiming (Beneath name) (resolveAt doc fuel sch inner position) :=
    (claiming_claimwise _).resolveAt (beneath_passedOn name) doc fuel hinner sch position
  refine ⟨fun sch key position => ?_, fun sch number => ?_, fun sch => ?_⟩
  · exact hresolve (beneath_append name (identifier_head key)) sch position
  · rw [String.append_assoc]
    exact hresolve (beneath_append name (begun_option number)) sch .nested
  · exact hresolve (beneath_append name ⟨'V', _, rfl, by decide⟩) sch .nested

/-- A schema that declares a parent claims no name but its own and longer ones that begin with it. A
    collision is on its own name, and then nothing is built, or its name was free and the collision is on
    a longer one. -/
theorem nested_claims_extend {r : Resolution} (hparent : DeclaresParent sch position)
    (h : Runs (resolveAt doc fuel sch name position) s r s') :
    (∀ key ∈ s'.registry.keys, key ∈ s.registry.keys ∨ key = name ∨ StrictlyExtends name key) ∧
      ∃ ds, s'.diagnostics = s.diagnostics ++ ds ∧ ∀ d ∈ ds, d.kind = .nameCollision →
        (name ∈ s.registry.keys ∧ r.declarations = [] ∧ d.subject = name) ∨
          (name ∉ s.registry.keys ∧ StrictlyExtends name d.subject) := by
  cases fuel with
  | zero => cases h
  | succ fuel =>
    obtain ⟨build, heq, hbuild⟩ :=
      (claiming_claimwise (Beneath name)).step_parent doc (inside_claiming doc fuel name) hparent
    rw [resolveAt, heq] at h
    rcases runs_declaring h with ⟨d, nested, t, hfree, hrun, rfl, rfl⟩ | ⟨htaken, rfl⟩
    · obtain ⟨hkeys, ds, hds, hcollisions⟩ := hbuild hrun
      refine ⟨fun key hkey => ?_, ds, hds, fun d hd hkind => .inr ⟨hfree, (hcollisions d hd hkind).extends⟩⟩
      rw [keys_recorded] at hkey
      rcases hkeys key hkey with hclaimed | hbeneath
      · rcases mem_keys_claimed.mp hclaimed with rfl | hold
        · exact .inr (.inl rfl)
        · exact .inl hold
      · exact .inr (.inr hbeneath.extends)
    · have hown : ClaimsOnly (· = name) s s' := htaken.claimsOnly rfl
      obtain ⟨hkeys, ds, hds, hcollisions⟩ := hown
      refine ⟨fun key hkey => (hkeys key hkey).imp_right .inl, ds, hds, fun d hd hkind => ?_⟩
      exact .inl ⟨htaken.mem_keys, rfl, hcollisions d hd hkind⟩

/-- An object with one address and several. The items of the array are named like the single one. -/
def addressed : Schema :=
  { Schema.blank with
    properties := some [
      ("address", { Schema.blank with properties := some [("city", { Schema.blank with type := some (.single "string") })] }),
      ("addresses", { Schema.blank with
        type := some (.single "array")
        items := some { Schema.blank with
          properties := some [("street", { Schema.blank with type := some (.single "string") })] } })] }

def addressedDocument : Document :=
  { openapi := "3.0.0", info := ⟨"t", "1", none⟩, servers := [], tags := [], paths := []
    components := ⟨[("Status", addressed)], [], [], []⟩ }

theorem nested_claims_extend_address :
    DeclaresParent addressed .component ∧
      ∃ r s', Runs (resolveAt addressedDocument 3 addressed "Status" .component) .start r s' ∧
        s'.registry.keys = ["Status", "StatusAddress"] ∧ s'.diagnostics = [.nameCollision "StatusAddress"] ∧
        (∀ key ∈ s'.registry.keys, key ∈ Session.start.registry.keys ∨ key = "Status" ∨ StrictlyExtends "Status" key) ∧
        ∃ ds, s'.diagnostics = Session.start.diagnostics ++ ds ∧ ∀ d ∈ ds, d.kind = .nameCollision →
          ("Status" ∈ Session.start.registry.keys ∧ r.declarations = [] ∧ d.subject = "Status") ∨
            ("Status" ∉ Session.start.registry.keys ∧ StrictlyExtends "Status" d.subject) := by
  have hparent : DeclaresParent addressed .component := .inl rfl
  have hpasses : passes (resolveAt addressedDocument 3 addressed "Status" .component) .start (fun _ s' =>
      decide (s'.registry.keys = ["Status", "StatusAddress"] ∧ s'.diagnostics = [.nameCollision "StatusAddress"])) =
        true := by
    decide +kernel
  obtain ⟨r, s', hruns, htest⟩ := exists_runs_of_passes hpasses
  obtain ⟨hkeys, hdiagnostics⟩ := of_decide_eq_true htest
  exact ⟨hparent, r, s', hruns, hkeys, hdiagnostics, nested_claims_extend hparent hruns⟩

end Resolve

end ClientGen
