import Mathlib.Logic.Relation
import ClientGen.Build.Reach

/-
  ClientGen.Proofs.Grouping.Reach — which components an operation reaches.

  A schema refers to the component that its reference names or, without a reference, to what the
  schemas inside it refer to (`Schema.RefersTo`). What it reaches is that, and what the components
  on the way refer to in turn (`Document.Reaches`). References may lead in a circle, and a name may
  have no component.
  - `mem_directRefs`: `directRefs` lists what a schema refers to.
  - A search only finds what its starting names lead to (`reached_of_mem_reachFrom`). Conversely
    what it has found is closed (`mem_reachFrom_of_leadsOn`): a name was looked into when it was
    found, as its component was pending until then (`Unopened`).
  - So an operation reaches what one of the schemas that it mentions reaches (`mem_operationReach`).
-/

namespace ClientGen

/-! ## Referring to components -/

inductive Schema.RefersTo : Schema → String → Prop
  | reference {s : Schema} {target name : String} : s.reference = some target →
      Document.schemaRefName? target = some name → RefersTo s name
  | inside {s c : Schema} {name : String} : s.reference = none → c ∈ s.children → RefersTo c name → RefersTo s name

theorem Schema.refersTo_of_mem {s : Schema} {name : String} (h : name ∈ s.directRefs) : s.RefersTo name := by
  rw [directRefs_eq] at h
  split at h
  · exact .reference ‹_› (Option.mem_toList.mp h)
  · obtain ⟨c, hc, hname⟩ := List.mem_flatMap.mp h
    have := sizeOf_lt_of_mem_children hc
    exact .inside ‹_› hc (refersTo_of_mem hname)
termination_by sizeOf s

theorem Schema.mem_directRefs {s : Schema} {name : String} : name ∈ s.directRefs ↔ s.RefersTo name := by
  refine ⟨refersTo_of_mem, ?_⟩
  intro h
  induction h with
  | reference href hname =>
    rw [directRefs_eq, href]
    exact Option.mem_toList.mpr hname
  | inside href hc _ ih =>
    rw [directRefs_eq, href]
    exact List.mem_flatMap.mpr ⟨_, hc, ih⟩

/-- The component `name` refers to `next`. -/
def LeadsOn (schemas : KeyMap Schema) (name next : String) : Prop :=
  ∃ component, KeyMap.get? schemas name = some component ∧ component.RefersTo next

namespace Document

/-- A schema reaches a name by a reference and then from component to component. -/
def Reaches (doc : Document) (s : Schema) (name : String) : Prop :=
  ∃ first, s.RefersTo first ∧ Relation.ReflTransGen (LeadsOn doc.components.schemas) first name

end Document

/-! ## Searching -/

variable {schemas pending : KeyMap Schema} {seen todo : List String} {name : String}

/-- The components of names not seen yet are pending. -/
def Unopened (schemas pending : KeyMap Schema) (seen : List String) : Prop :=
  ∀ n ∉ seen, KeyMap.get? pending n = KeyMap.get? schemas n

theorem Unopened.see (h : Unopened schemas pending seen) : Unopened schemas pending (name :: seen) := by
  intro n hn
  exact h n fun hseen => hn (List.mem_cons_of_mem name hseen)

theorem Unopened.open (h : Unopened schemas pending seen) :
    Unopened schemas (withoutKey name pending) (name :: seen) := by
  intro n hn
  have hne : n ≠ name := fun heq => hn (heq ▸ List.mem_cons_self)
  rw [get?_withoutKey hne]
  exact h.see n hn

theorem reached_of_mem_reachFrom (hpending : Unopened schemas pending seen) (h : name ∈ reachFrom pending seen todo) :
    name ∈ seen ∨ ∃ first ∈ todo, Relation.ReflTransGen (LeadsOn schemas) first name := by
  fun_induction reachFrom pending seen todo with
  | case1 pending seen => exact .inl h
  | case2 pending seen first rest hseen ih =>
    refine (ih hpending h).imp_right ?_
    rintro ⟨n, hn, hchain⟩
    exact ⟨n, List.mem_cons_of_mem first hn, hchain⟩
  | case3 pending seen first rest hseen hget ih =>
    rcases ih hpending.see h with hfound | ⟨n, hn, hchain⟩
    · rcases List.mem_cons.mp hfound with rfl | hfound
      · exact .inr ⟨name, List.mem_cons_self, .refl⟩
      · exact .inl hfound
    · exact .inr ⟨n, List.mem_cons_of_mem first hn, hchain⟩
  | case4 pending seen first rest hseen s hget hlt ih =>
    have hcomponent : KeyMap.get? schemas first = some s :=
      (hpending first (mt List.contains_iff_mem.mpr hseen)).symm.trans hget
    rcases ih hpending.open h with hfound | ⟨n, hn, hchain⟩
    · rcases List.mem_cons.mp hfound with rfl | hfound
      · exact .inr ⟨name, List.mem_cons_self, .refl⟩
      · exact .inl hfound
    · rcases List.mem_append.mp hn with hin | hn
      · have hleads : LeadsOn schemas first n := ⟨s, hcomponent, Schema.mem_directRefs.mp hin⟩
        exact .inr ⟨first, List.mem_cons_self, .head hleads hchain⟩
      · exact .inr ⟨n, List.mem_cons_of_mem first hn, hchain⟩

/-- Whatever was seen stays, and what is to do is found. -/
theorem mem_reachFrom (h : name ∈ seen ∨ name ∈ todo) : name ∈ reachFrom pending seen todo := by
  fun_induction reachFrom pending seen todo with
  | case1 pending seen => exact h.resolve_right List.not_mem_nil
  | case2 pending seen first rest hseen ih =>
    refine ih ?_
    rcases h with h | h
    · exact .inl h
    · rcases List.mem_cons.mp h with rfl | h
      · exact .inl (List.contains_iff_mem.mp hseen)
      · exact .inr h
  | case3 pending seen first rest hseen hget ih =>
    refine ih ?_
    rcases h with h | h
    · exact .inl (List.mem_cons_of_mem first h)
    · rcases List.mem_cons.mp h with rfl | h
      · exact .inl List.mem_cons_self
      · exact .inr h
  | case4 pending seen first rest hseen s hget hlt ih =>
    refine ih ?_
    rcases h with h | h
    · exact .inl (List.mem_cons_of_mem first h)
    · rcases List.mem_cons.mp h with rfl | h
      · exact .inl List.mem_cons_self
      · exact .inr (List.mem_append_right _ h)

/-- What is found is closed, if what was seen leads on to what was seen or is to do. -/
theorem mem_reachFrom_of_leadsOn (hpending : Unopened schemas pending seen)
    (hseen : ∀ n ∈ seen, ∀ next, LeadsOn schemas n next → next ∈ seen ∨ next ∈ todo) {next : String}
    (h : name ∈ reachFrom pending seen todo) (hleads : LeadsOn schemas name next) :
    next ∈ reachFrom pending seen todo := by
  fun_induction reachFrom pending seen todo with
  | case1 pending seen => exact (hseen name h next hleads).resolve_right List.not_mem_nil
  | case2 pending seen first rest hcontains ih =>
    refine ih hpending ?_ h
    intro n hn m hm
    rcases hseen n hn m hm with hm | hm
    · exact .inl hm
    · rcases List.mem_cons.mp hm with rfl | hm
      · exact .inl (List.contains_iff_mem.mp hcontains)
      · exact .inr hm
  | case3 pending seen first rest hcontains hget ih =>
    refine ih hpending.see ?_ h
    intro n hn m hm
    rcases List.mem_cons.mp hn with rfl | hn
    · -- a name without a component leads nowhere
      obtain ⟨component, hcomponent, -⟩ := hm
      rw [← hpending n (mt List.contains_iff_mem.mpr hcontains), hget] at hcomponent
      cases hcomponent
    · rcases hseen n hn m hm with hm | hm
      · exact .inl (List.mem_cons_of_mem first hm)
      · rcases List.mem_cons.mp hm with rfl | hm
        · exact .inl List.mem_cons_self
        · exact .inr hm
  | case4 pending seen first rest hcontains s hget hlt ih =>
    refine ih hpending.open ?_ h
    intro n hn m hm
    rcases List.mem_cons.mp hn with rfl | hn
    · obtain ⟨component, hcomponent, hrefers⟩ := hm
      rw [← hpending n (mt List.contains_iff_mem.mpr hcontains), hget, Option.some.injEq] at hcomponent
      subst hcomponent
      exact .inr (List.mem_append_left _ (Schema.mem_directRefs.mpr hrefers))
    · rcases hseen n hn m hm with hm | hm
      · exact .inl (List.mem_cons_of_mem first hm)
      · rcases List.mem_cons.mp hm with rfl | hm
        · exact .inl List.mem_cons_self
        · exact .inr (List.mem_append_right _ hm)

/-- A search from nothing seen finds what its names lead to. -/
theorem mem_reachFrom_iff : name ∈ reachFrom schemas [] todo ↔
    ∃ first ∈ todo, Relation.ReflTransGen (LeadsOn schemas) first name := by
  have hstart : Unopened schemas schemas [] := fun _ _ => rfl
  constructor
  · intro h
    exact (reached_of_mem_reachFrom hstart h).resolve_left List.not_mem_nil
  · rintro ⟨first, hfirst, hchain⟩
    induction hchain with
    | refl => exact mem_reachFrom (.inr hfirst)
    | tail _ hleads ih =>
      exact mem_reachFrom_of_leadsOn hstart (fun n hn => absurd hn List.not_mem_nil) ih hleads

theorem mem_operationReach {doc : Document} {op : Operation} {ofPath : List (RefOr ParameterSpec)} :
    name ∈ doc.operationReach op ofPath ↔ ∃ s ∈ doc.operationSchemas op ofPath, doc.Reaches s name := by
  rw [Document.operationReach, mem_reachFrom_iff]
  constructor
  · rintro ⟨first, hfirst, hchain⟩
    obtain ⟨s, hs, hin⟩ := List.mem_flatMap.mp hfirst
    exact ⟨s, hs, first, Schema.mem_directRefs.mp hin, hchain⟩
  · rintro ⟨s, hs, first, hrefers, hchain⟩
    exact ⟨first, List.mem_flatMap.mpr ⟨s, hs, Schema.mem_directRefs.mpr hrefers⟩, hchain⟩

end ClientGen
