import ClientGen.Build.Reach
import ClientGen.Proofs.Fuel.Opened

/-
  ClientGen.Proofs.Fuel.Bound — how much fuel resolving can use.

  Two bounds, for two reasons why resolving ends.
  - Between two claims schemas only get smaller, and no schema is larger than the document's
    largest. So the fuel used is at most the claims times that size (`fuel_le`).
  - Without an endless chain of opened schemas, the fuel that some schema needs is one more than
    what the schemas that it opens need (`exists_bound_of_acc`).
-/

namespace ClientGen.Resolve

variable {doc : Document} {sch : Schema} {name : String} {position : Position} {fuel : Nat} {s s' : Session}

/-- What passes to the schemas inside and holds of every component holds of what is opened. -/
theorem of_mem_opened {P : Schema → Prop} (hP : ∀ {s c}, P s → c ∈ s.children → P c)
    (hcomponents : ∀ e ∈ doc.components.schemas, P e.2) (hs : P sch) {c : Schema × Position}
    (h : c ∈ opened doc sch position) : P c.1 := by
  have hmerged {branches : List Schema} (hb : sch.allOf = some branches)
      (h : c ∈ (mergedProperties doc sch branches).map (·, Position.allOfProperty)) : P c.1 := by
    obtain ⟨p, hp, rfl⟩ := List.mem_map.mp h
    obtain ⟨part, hpart, hp⟩ := List.mem_flatMap.mp hp
    cases part with
    | dangling => cases hp
    | schema part =>
      obtain ⟨e, he, rfl⟩ := List.mem_map.mp hp
      have hpart : P part :=
        of_mem_mergeParts (fun hs hb hmem => hP hs (Schema.mem_children_of_allOf hb hmem)) hcomponents hs hb hpart
      exact hP hpart (Schema.mem_children_of_property he)
  unfold opened at h
  split at h <;> rename_i hshape
  · cases List.mem_singleton.mp h
    exact hP hs (Schema.mem_children_of_items (Schema.items_of_shape hshape))
  · split at h
    · obtain ⟨value, hvalue, rfl⟩ := List.mem_map.mp h
      exact hP hs (Schema.mem_children_of_additional (Option.mem_toList.mp hvalue))
    · obtain ⟨e, he, rfl⟩ := List.mem_map.mp h
      exact hP hs (Schema.mem_children_of_property he)
  · obtain ⟨b, hb, rfl⟩ := List.mem_map.mp h
    exact hP hs (Schema.mem_children_of_oneOf (Schema.eq_of_shape.2.2.1 _ hshape) hb)
  · have hb := Schema.allOf_of_shape hshape
    unfold openedByAllOf at h
    split at h
    · exact hmerged hb h
    · cases List.mem_singleton.mp h
      exact hP hs (Schema.mem_children_of_allOf hb List.mem_cons_self)
    · exact hmerged hb h
    · cases h
  · cases h

/-- Every claim pays for as many steps as the largest schema is deep. -/
theorem fuel_le {bound : Nat} (hcomponents : ∀ e ∈ doc.components.schemas, sizeOf e.2 ≤ bound)
    (hs : sizeOf sch ≤ bound) (h : RunsOut (resolveAt doc fuel sch name position) s s') :
    fuel + names s * (bound + 1) ≤ names s' * (bound + 1) + sizeOf sch := by
  induction fuel generalizing sch name position s with
  | zero =>
    cases h
    omega
  | succ fuel ih =>
    obtain ⟨c, hc, hreach⟩ := runsOut_step (resolveAt_emits doc fuel) h
    have hsmaller {s c : Schema} (hs : sizeOf s ≤ bound) (hc : c ∈ s.children) : sizeOf c ≤ bound := by
      have := Schema.sizeOf_lt_of_mem_children hc
      omega
    have hcs : sizeOf c.1 ≤ bound := of_mem_opened (P := (sizeOf · ≤ bound)) hsmaller hcomponents hs hc
    rcases hreach with ⟨t, ht, n, u, hu, hout⟩ | ⟨⟨n, u, hu, hout⟩, hlt⟩
    · have hrest := ih hcs hout
      have hclaim : (names s + 1) * (bound + 1) ≤ names u * (bound + 1) := Nat.mul_le_mul_right _ (by omega)
      rw [Nat.add_mul] at hclaim
      omega
    · have hrest := ih hcs hout
      have hkept : names s * (bound + 1) ≤ names u * (bound + 1) := Nat.mul_le_mul_right _ hu
      omega

/-! ## Chains of opened schemas -/

/-- `c'` is resolved when `c` is. -/
def Opens (doc : Document) (c' c : Schema × Position) : Prop := c' ∈ opened doc c.1 c.2

theorem exists_common_bound {α : Type} {P : α → Nat → Prop} (hP : ∀ {a n m}, n ≤ m → P a n → P a m) (items : List α)
    (h : ∀ a ∈ items, ∃ n, P a n) : ∃ n, ∀ a ∈ items, P a n := by
  induction items with
  | nil => exact ⟨0, fun a ha => by cases ha⟩
  | cons a rest ih =>
    obtain ⟨n, hn⟩ := h a List.mem_cons_self
    obtain ⟨m, hm⟩ := ih fun b hb => h b (List.mem_cons_of_mem a hb)
    refine ⟨max n m, fun b hb => ?_⟩
    rcases List.mem_cons.mp hb with rfl | hb
    · exact hP (Nat.le_max_left n m) hn
    · exact hP (Nat.le_max_right n m) (hm b hb)

/-- Resolving `c` never runs out of more fuel than `bound`, under whatever name. -/
def FuelBounded (doc : Document) (c : Schema × Position) (bound : Nat) : Prop :=
  ∀ {fuel name s s'}, RunsOut (resolveAt doc fuel c.1 name c.2) s s' → fuel ≤ bound

theorem FuelBounded.mono {c : Schema × Position} {n m : Nat} (hle : n ≤ m) (h : FuelBounded doc c n) :
    FuelBounded doc c m := fun hout => Nat.le_trans (h hout) hle

theorem exists_bound_of_acc {c : Schema × Position} (h : Acc (Opens doc) c) : ∃ bound, FuelBounded doc c bound := by
  induction h with
  | intro c _ ih =>
    obtain ⟨bound, hbound⟩ := exists_common_bound (P := FuelBounded doc) FuelBounded.mono (opened doc c.1 c.2) ih
    refine ⟨bound + 1, fun {fuel name s s'} hout => ?_⟩
    cases fuel with
    | zero => exact Nat.zero_le _
    | succ fuel =>
      obtain ⟨c', hc', hreach⟩ := runsOut_step (resolveAt_emits doc fuel) hout
      rcases hreach with ⟨_, _, n, u, _, hout⟩ | ⟨⟨n, u, _, hout⟩, _⟩
      · exact Nat.succ_le_succ (hbound c' hc' hout)
      · exact Nat.succ_le_succ (hbound c' hc' hout)

end ClientGen.Resolve
