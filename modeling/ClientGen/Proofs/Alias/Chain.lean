import Mathlib.Data.List.Nodup
import Mathlib.Data.List.Perm.Subperm
import ClientGen.Registry

/-
  ClientGen.Proofs.Alias.Chain — where a chain of aliases leads.

  A named type with a recorded target is a link of the chain; any other type ends it. A type has
  at most one link, so of two chains from one type the longer one continues the shorter
  (`Leads.continues`).
  - A chain that passes a name twice goes round for ever, so a chain that ends passes every name
    once. The names that it passes are names of the registry: it has at most as many links as the
    registry has names (`EndsAt.exists_short`).
  - A chain with more links than that goes round (`Leads.circles`).
  - So following `r.length` links and looking at one type more finds every end, and whatever it
    does not find goes round (`resolveAlias_eq_of_endsAt`, `resolveAlias_eq_of_circles`,
    `circles_iff`).
-/

namespace ClientGen.Registry

variable {r : Registry} {t u v e : TypeRef} {name : String} {passed more : List String} {steps : Nat}

/-- From `t` the aliases of the names `passed`, one after the other, lead to `u`. -/
inductive Leads (r : Registry) : TypeRef → List String → TypeRef → Prop
  | here (t : TypeRef) : Leads r t [] t
  | link {name : String} {t u : TypeRef} {passed : List String} : r.aliasOf? name = some t → Leads r t passed u →
      Leads r (.named name) (name :: passed) u

/-- The type is no alias: it has no name, or its name has no recorded target. -/
def Final (r : Registry) (e : TypeRef) : Prop := ∀ name, e = .named name → r.aliasOf? name = none

/-- The chain from `t` is finite, and `e` is the first type on it that is no alias. -/
def EndsAt (r : Registry) (t e : TypeRef) : Prop := (∃ passed, r.Leads t passed e) ∧ r.Final e

/-- The chain from `t` comes to a name that it leads back to. -/
def Circles (r : Registry) (t : TypeRef) : Prop :=
  ∃ passed name loop, r.Leads t passed (.named name) ∧ r.Leads (.named name) loop (.named name) ∧ loop ≠ []

/-! ## Chains -/

theorem mem_keys_of_aliasOf (h : r.aliasOf? name = some t) : name ∈ r.keys := by
  obtain ⟨entry, hentry, -⟩ := Option.bind_eq_some_iff.mp h
  exact KeyMap.mem_keys_of_get? hentry

theorem Leads.trans (h : r.Leads t passed u) (h' : r.Leads u more v) : r.Leads t (passed ++ more) v := by
  induction h with
  | here t => exact h'
  | link hname _ ih => exact .link hname (ih h')

/-- A passed name is an alias. -/
theorem Leads.exists_target (h : r.Leads t passed u) (hname : name ∈ passed) : ∃ target, r.aliasOf? name = some target := by
  induction h with
  | here t => cases hname
  | link hfirst _ ih =>
    rcases List.mem_cons.mp hname with rfl | hname
    · exact ⟨_, hfirst⟩
    · exact ih hname

theorem Leads.subset_keys (h : r.Leads t passed u) : passed ⊆ r.keys := by
  intro name hname
  obtain ⟨target, htarget⟩ := h.exists_target hname
  exact mem_keys_of_aliasOf htarget

/-- A passed name lies on the chain. -/
theorem Leads.exists_before (h : r.Leads t passed u) (hname : name ∈ passed) :
    ∃ before, r.Leads t before (.named name) := by
  induction h with
  | here t => cases hname
  | @link first t u passed hfirst _ ih =>
    rcases List.mem_cons.mp hname with rfl | hname
    · exact ⟨[], .here _⟩
    · obtain ⟨before, hbefore⟩ := ih hname
      exact ⟨first :: before, .link hfirst hbefore⟩

/-- The last link of a chain. -/
theorem Leads.last (h : r.Leads t passed u) :
    (passed = [] ∧ t = u) ∨
      ∃ before name, passed = before ++ [name] ∧ r.Leads t before (.named name) ∧ r.aliasOf? name = some u := by
  induction h with
  | here t => exact .inl ⟨rfl, rfl⟩
  | @link first t u passed hfirst _ ih =>
    right
    rcases ih with ⟨rfl, rfl⟩ | ⟨before, name, rfl, hbefore, hname⟩
    · exact ⟨[], first, rfl, .here _, hfirst⟩
    · exact ⟨first :: before, name, rfl, .link hfirst hbefore, hname⟩

/-- A chain that ends continues every other chain from the same type. -/
theorem Leads.continues (h : r.Leads t passed u) (hended : r.Leads t more e) (he : r.Final e) :
    ∃ rest, more = passed ++ rest ∧ r.Leads u rest e := by
  induction h generalizing more with
  | here t => exact ⟨more, rfl, hended⟩
  | link hname _ ih =>
    cases hended with
    | here _ =>
      rw [he _ rfl] at hname
      cases hname
    | link hname' hrest =>
      cases hname.symm.trans hname'
      obtain ⟨rest, rfl, hlater⟩ := ih hrest
      exact ⟨rest, rfl, hlater⟩

theorem Leads.eq_of_final (h : r.Leads u passed e) (hu : r.Final u) : passed = [] ∧ e = u := by
  cases h with
  | here _ => exact ⟨rfl, rfl⟩
  | link hname _ =>
    rw [hu _ rfl] at hname
    cases hname

/-! ## Circles -/

theorem Circles.of_leads (h : r.Leads t passed u) (hcircle : r.Circles u) : r.Circles t := by
  obtain ⟨more, name, loop, hmore, hloop, hne⟩ := hcircle
  exact ⟨passed ++ more, name, loop, h.trans hmore, hloop, hne⟩

/-- A chain that ends does not go round: going round once more would end as well, after fewer
    links. -/
theorem EndsAt.not_circles (h : r.EndsAt t e) : ¬ r.Circles t := by
  rintro ⟨passed, name, loop, hpassed, hloop, hne⟩
  obtain ⟨⟨whole, hwhole⟩, he⟩ := h
  obtain ⟨rest, -, hrest⟩ := hpassed.continues hwhole he
  have hshorter : ∀ rest, ¬ r.Leads (.named name) rest e := by
    intro rest
    induction hlength : rest.length using Nat.strongRecOn generalizing rest with
    | ind length ih =>
      intro hrest
      obtain ⟨later, rfl, hlater⟩ := hloop.continues hrest he
      refine ih later.length ?_ later rfl hlater
      have := List.length_pos_of_ne_nil hne
      rw [← hlength, List.length_append]
      omega
  exact hshorter rest hrest

theorem Leads.nodup_or_circles (h : r.Leads t passed u) : passed.Nodup ∨ r.Circles t := by
  induction h with
  | here t => exact .inl List.nodup_nil
  | @link name t u passed hname hrest ih =>
    rcases ih with hnodup | hcircle
    · by_cases hback : name ∈ passed
      · obtain ⟨before, hbefore⟩ := hrest.exists_before hback
        exact .inr ⟨[], name, name :: before, .here _, .link hname hbefore, List.cons_ne_nil _ _⟩
      · exact .inl (List.nodup_cons.mpr ⟨hback, hnodup⟩)
    · exact .inr (.of_leads (.link hname (.here _)) hcircle)

theorem length_le_of_nodup {names : List String} (hnodup : names.Nodup) (h : names ⊆ r.keys) : names.length ≤ r.length := by
  have hle := (hnodup.subperm h).length_le
  rwa [KeyMap.keys, List.length_map] at hle

/-- A chain with more links than the registry has names goes round. -/
theorem Leads.circles (h : r.Leads t passed u) (hlong : r.length < passed.length) : r.Circles t := by
  refine h.nodup_or_circles.resolve_left ?_
  intro hnodup
  have hle := length_le_of_nodup hnodup h.subset_keys
  omega

/-- A chain that ends passes no name twice, so it has no more links than the registry has names. -/
theorem EndsAt.exists_short (h : r.EndsAt t e) :
    ∃ passed, r.Leads t passed e ∧ passed.Nodup ∧ passed.length ≤ r.length := by
  obtain ⟨passed, hpassed⟩ := h.1
  refine ⟨passed, hpassed, hpassed.nodup_or_circles.resolve_right h.not_circles, ?_⟩
  by_contra hlong
  exact h.not_circles (hpassed.circles (by omega))

/-! ## Following a chain -/

theorem followAlias_eq_some_iff :
    r.followAlias t steps = some e ↔ ∃ passed, r.Leads t passed e ∧ r.Final e ∧ passed.length < steps := by
  induction steps generalizing t with
  | zero => simp [followAlias]
  | succ steps ih =>
    have hstop {t : TypeRef} (hfinal : r.Final t) :
        some t = some e ↔ ∃ passed, r.Leads t passed e ∧ r.Final e ∧ passed.length < steps + 1 := by
      constructor
      · rintro ⟨⟩
        exact ⟨[], .here _, hfinal, Nat.succ_pos steps⟩
      · rintro ⟨passed, hpassed, -, -⟩
        rw [(hpassed.eq_of_final hfinal).2]
    unfold followAlias
    split
    · rename_i name
      split
      · rename_i target htarget
        rw [ih]
        constructor
        · rintro ⟨passed, hpassed, he, hlength⟩
          exact ⟨name :: passed, .link htarget hpassed, he, Nat.succ_lt_succ hlength⟩
        · rintro ⟨passed, hpassed, he, hlength⟩
          cases hpassed with
          | here _ =>
            rw [he _ rfl] at htarget
            cases htarget
          | link hname hrest =>
            cases htarget.symm.trans hname
            exact ⟨_, hrest, he, Nat.lt_of_succ_lt_succ hlength⟩
      · rename_i hnone
        refine hstop ?_
        rintro _ ⟨⟩
        exact hnone
    · rename_i hunnamed
      exact hstop fun name hname => absurd hname (hunnamed name)

theorem exists_leads_of_followAlias_eq_none (h : r.followAlias t steps = none) :
    ∃ passed u, r.Leads t passed u ∧ passed.length = steps := by
  induction steps generalizing t with
  | zero => exact ⟨[], t, .here t, rfl⟩
  | succ steps ih =>
    unfold followAlias at h
    split at h
    · rename_i name
      split at h
      · rename_i target htarget
        obtain ⟨passed, u, hpassed, hlength⟩ := ih h
        exact ⟨name :: passed, u, .link htarget hpassed, congrArg Nat.succ hlength⟩
      · cases h
    · cases h

/-- What is found is the end of the chain. -/
theorem endsAt_of_followAlias (h : r.followAlias t steps = some e) : r.EndsAt t e := by
  obtain ⟨passed, hpassed, he, -⟩ := followAlias_eq_some_iff.mp h
  exact ⟨⟨passed, hpassed⟩, he⟩

/-- The bound cuts no chain off that ends. -/
theorem resolveAlias_eq_of_endsAt (h : r.EndsAt t e) : r.resolveAlias t = e := by
  obtain ⟨passed, hpassed, -, hlength⟩ := h.exists_short
  rw [resolveAlias, followAlias_eq_some_iff.mpr ⟨passed, hpassed, h.2, Nat.lt_succ_of_le hlength⟩, Option.getD_some]

theorem resolveAlias_eq_of_circles (h : r.Circles t) : r.resolveAlias t = t := by
  rw [resolveAlias]
  cases hfollow : r.followAlias t (r.length + 1) with
  | none => rfl
  | some e => exact absurd h (endsAt_of_followAlias hfollow).not_circles

theorem circles_iff : r.Circles t ↔ ∀ e, ¬ r.EndsAt t e := by
  constructor
  · intro hcircles e hends
    exact hends.not_circles hcircles
  · intro hendless
    cases hfollow : r.followAlias t (r.length + 1) with
    | some e => exact absurd (endsAt_of_followAlias hfollow) (hendless e)
    | none =>
      obtain ⟨passed, u, hpassed, hlength⟩ := exists_leads_of_followAlias_eq_none hfollow
      exact hpassed.circles (by omega)

end ClientGen.Registry
