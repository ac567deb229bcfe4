import Mathlib.Data.List.Count
import Mathlib.Data.Prod.Lex
import Mathlib.Logic.Relation
import ClientGen.Build.Errors

/-
  ClientGen.Proofs.Errors.Propagation — following aliases marks a closure, in whatever order.

  A marking has names that are marked and, of these, names that are pending. A step takes any
  pending name: if it stands for a name that is not marked, that one is marked and pending from
  then on (`Marking.Step`).
  - Steps come to an end, also on aliases that lead in a circle: every name is marked once
    (`wellFounded_step`). As long as a name is pending there is a step (`exists_step`).
  - A marking without pending names marks what its roots stand for, directly or along a chain, and
    nothing else (`Marking.Traced.mem_marked`). So it does not matter which names were taken first.
  - `followErrors` is one such run: the first pending name is taken each time, and an alias that was
    followed is not looked up again (`exists_run_followErrors`).
-/

namespace ClientGen

structure Marking where
  marked : List String
  pending : List String

def StandsFor (aliases : KeyMap String) (name target : String) : Prop := KeyMap.get? aliases name = some target

namespace Marking

variable {aliases : KeyMap String} {m m' : Marking}

inductive Step (aliases : KeyMap String) : Marking → Marking → Prop
  | settle {marked before after : List String} {name : String} :
      (∀ target, StandsFor aliases name target → target ∈ marked) →
      Step aliases ⟨marked, before ++ name :: after⟩ ⟨marked, before ++ after⟩
  | follow {marked before after : List String} {name target : String} :
      StandsFor aliases name target → target ∉ marked →
      Step aliases ⟨marked, before ++ name :: after⟩ ⟨target :: marked, target :: (before ++ after)⟩

theorem Step.settle_first {marked rest : List String} {name : String}
    (h : ∀ target, StandsFor aliases name target → target ∈ marked) :
    Step aliases ⟨marked, name :: rest⟩ ⟨marked, rest⟩ :=
  @Step.settle aliases marked [] rest name h

theorem Step.follow_first {marked rest : List String} {name target : String} (halias : StandsFor aliases name target)
    (hnew : target ∉ marked) : Step aliases ⟨marked, name :: rest⟩ ⟨target :: marked, target :: rest⟩ :=
  @Step.follow aliases marked [] rest name target halias hnew

/-- Take the names that are pending, one after the other. -/
def Run (aliases : KeyMap String) : Marking → Marking → Prop := Relation.ReflTransGen (Step aliases)

/-! ## Steps come to an end -/

/-- The aliases that lead to a name which is not marked. -/
def ahead (aliases : KeyMap String) (m : Marking) : Nat := aliases.countP fun e => e.2 ∉ m.marked

theorem ahead_mark_lt {name target : String} {marked pending pending' : List String}
    (halias : StandsFor aliases name target) (hnew : target ∉ marked) :
    ahead aliases ⟨target :: marked, pending'⟩ < ahead aliases ⟨marked, pending⟩ := by
  have hmem := KeyMap.mem_of_get? halias
  have hsub {e : String × String} (he : e.2 ∉ target :: marked) : e.2 ∉ marked := by
    intro hin
    exact he (List.mem_cons_of_mem target hin)
  have hfilter : (aliases.filter fun e => e.2 ∉ target :: marked).length <
      (aliases.filter fun e => e.2 ∉ marked).length := by
    have hsplit : (aliases.filter fun e => e.2 ∉ target :: marked) =
        (aliases.filter fun e => e.2 ∉ marked).filter fun e => e.2 ∉ target :: marked := by
      rw [List.filter_filter]
      refine List.filter_congr fun e _ => ?_
      by_cases he : e.2 ∉ target :: marked
      · simp [hsub he]
      · simp only [he, decide_false, Bool.false_and]
    rw [hsplit]
    refine List.length_filter_lt_length_iff_exists.mpr ⟨(name, target), ?_, ?_⟩
    · exact List.mem_filter.mpr ⟨hmem, decide_eq_true hnew⟩
    · simp
  rwa [← List.countP_eq_length_filter, ← List.countP_eq_length_filter] at hfilter

theorem Step.decreases (h : Step aliases m m') :
    Prod.Lex (· < ·) (· < ·) (ahead aliases m', m'.pending.length) (ahead aliases m, m.pending.length) := by
  cases h with
  | settle _ =>
    refine Prod.Lex.right _ ?_
    simp only [List.length_append, List.length_cons]
    omega
  | follow halias hnew => exact Prod.Lex.left _ _ (ahead_mark_lt halias hnew)

theorem wellFounded_step (aliases : KeyMap String) : WellFounded fun m' m => Step aliases m m' :=
  Subrelation.wf Step.decreases
    (InvImage.wf (fun m => (ahead aliases m, m.pending.length)) (Prod.lex Nat.lt_wfRel Nat.lt_wfRel).wf)

theorem exists_step (h : m.pending ≠ []) : ∃ m', Step aliases m m' := by
  obtain ⟨marked, pending⟩ := m
  cases pending with
  | nil => exact absurd rfl h
  | cons name rest =>
    by_cases hsettled : ∀ target, StandsFor aliases name target → target ∈ marked
    · exact ⟨⟨marked, rest⟩, .settle_first hsettled⟩
    · simp only [not_forall] at hsettled
      obtain ⟨target, halias, hnew⟩ := hsettled
      exact ⟨⟨target :: marked, target :: rest⟩, .follow_first halias hnew⟩

/-! ## What is marked -/

/-- The marked names come from the roots, and lead on to marked names unless they are pending. -/
structure Traced (aliases : KeyMap String) (roots : List String) (m : Marking) : Prop where
  roots_marked : ∀ name ∈ roots, name ∈ m.marked
  pending_marked : ∀ name ∈ m.pending, name ∈ m.marked
  reached : ∀ name ∈ m.marked, ∃ root ∈ roots, Relation.ReflTransGen (StandsFor aliases) root name
  closed : ∀ name ∈ m.marked, name ∉ m.pending → ∀ target, StandsFor aliases name target → target ∈ m.marked

theorem traced_start {roots order : List String} (h : ∀ name, name ∈ order ↔ name ∈ roots) :
    Traced aliases roots ⟨order, order⟩ where
  roots_marked := fun name hname => (h name).mpr hname
  pending_marked := fun _ hname => hname
  reached := fun name hname => ⟨name, (h name).mp hname, .refl⟩
  closed := fun _ hname hdone => absurd hname hdone

theorem mem_pending {before after : List String} {name n : String} :
    n ∈ before ++ name :: after ↔ n = name ∨ n ∈ before ++ after := by
  rw [List.mem_append, List.mem_append, List.mem_cons]
  exact or_left_comm

theorem Traced.step {roots : List String} (h : Traced aliases roots m) (hstep : Step aliases m m') :
    Traced aliases roots m' := by
  cases hstep with
  | @settle marked before after name hsettled =>
    refine ⟨h.roots_marked, fun n hn => h.pending_marked n (mem_pending.mpr (.inr hn)), h.reached, ?_⟩
    intro n hn hdone
    by_cases hname : n = name
    · exact hname ▸ hsettled
    · exact h.closed n hn fun hpending => hdone ((mem_pending.mp hpending).resolve_left hname)
  | @follow marked before after name target halias hnew =>
    have hname : name ∈ marked := h.pending_marked name (mem_pending.mpr (.inl rfl))
    constructor
    case roots_marked =>
      intro n hn
      exact List.mem_cons_of_mem target (h.roots_marked n hn)
    case pending_marked =>
      intro n hn
      rcases List.mem_cons.mp hn with rfl | hn
      · exact List.mem_cons_self
      · exact List.mem_cons_of_mem target (h.pending_marked n (mem_pending.mpr (.inr hn)))
    case reached =>
      intro n hn
      rcases List.mem_cons.mp hn with rfl | hn
      · obtain ⟨root, hroot, hchain⟩ := h.reached name hname
        exact ⟨root, hroot, hchain.tail halias⟩
      · exact h.reached n hn
    case closed =>
      intro n hn hdone next hnext
      by_cases heq : n = name
      · subst heq
        rw [StandsFor, halias, Option.some.injEq] at hnext
        exact hnext ▸ List.mem_cons_self
      · rcases List.mem_cons.mp hn with rfl | hn
        · exact absurd List.mem_cons_self hdone
        · refine List.mem_cons_of_mem target (h.closed n hn ?_ next hnext)
          intro hpending
          exact hdone (List.mem_cons_of_mem target ((mem_pending.mp hpending).resolve_left heq))

theorem Traced.run {roots : List String} (h : Traced aliases roots m) (hrun : Run aliases m m') :
    Traced aliases roots m' := by
  induction hrun with
  | refl => exact h
  | tail _ hstep ih => exact ih.step hstep

/-- At the end the marked names are those that the roots stand for. -/
theorem Traced.mem_marked {roots : List String} (h : Traced aliases roots m) (hdone : m.pending = []) {name : String} :
    name ∈ m.marked ↔ ∃ root ∈ roots, Relation.ReflTransGen (StandsFor aliases) root name := by
  refine ⟨h.reached name, ?_⟩
  rintro ⟨root, hroot, hchain⟩
  induction hchain with
  | refl => exact h.roots_marked root hroot
  | @tail n target _ halias ih =>
    have hsettled : n ∉ m.pending := by
      rw [hdone]
      exact List.not_mem_nil
    exact h.closed n ih hsettled target halias

end Marking

/-! ## Following errors -/

/-- The aliases left say what all aliases say, except for those that lead to a marked name. -/
def AliasesLeft (aliases left : KeyMap String) (marked : List String) : Prop :=
  ∀ name, KeyMap.get? left name = KeyMap.get? aliases name ∨
    KeyMap.get? left name = none ∧ ∀ target, StandsFor aliases name target → target ∈ marked

theorem AliasesLeft.mark {aliases left : KeyMap String} {marked : List String} {name target : String}
    (h : AliasesLeft aliases left marked) (halias : StandsFor aliases name target) :
    AliasesLeft aliases (withoutKey name left) (target :: marked) := by
  intro n
  by_cases hn : n = name
  · subst hn
    refine .inr ⟨KeyMap.get?_eq_none_iff.mpr ?_, ?_⟩
    · intro hmem
      obtain ⟨e, he, heq⟩ := List.mem_map.mp hmem
      have hkept := of_decide_eq_true (List.mem_filter.mp he).2
      exact hkept heq
    · intro next hnext
      rw [StandsFor, halias, Option.some.injEq] at hnext
      exact hnext ▸ List.mem_cons_self
  · rw [get?_withoutKey hn]
    rcases h n with hsame | ⟨hnone, hmarked⟩
    · exact .inl hsame
    · exact .inr ⟨hnone, fun next hnext => List.mem_cons_of_mem target (hmarked next hnext)⟩

open Marking in
theorem exists_run_followErrors {aliases left : KeyMap String} {marked todo : List String}
    (h : AliasesLeft aliases left marked) :
    ∃ m, Run aliases ⟨marked, todo⟩ m ∧ m.pending = [] ∧ m.marked = followErrors left marked todo := by
  fun_induction followErrors left marked todo with
  | case1 left marked => exact ⟨⟨marked, []⟩, .refl, rfl, rfl⟩
  | case2 left marked name rest hget ih =>
    obtain ⟨m, hrun, hdone, hmarked⟩ := ih h
    have hsettled : ∀ target, StandsFor aliases name target → target ∈ marked := by
      intro target halias
      rcases h name with hsame | ⟨-, hall⟩
      · rw [StandsFor, ← hsame, hget] at halias
        cases halias
      · exact hall target halias
    exact ⟨m, .head (.settle_first hsettled) hrun, hdone, hmarked⟩
  | case3 left marked name rest target hget hcontains ih =>
    obtain ⟨m, hrun, hdone, hmarked⟩ := ih h
    have hsettled : ∀ next, StandsFor aliases name next → next ∈ marked := by
      intro next halias
      rcases h name with hsame | ⟨-, hall⟩
      · rw [StandsFor, ← hsame, hget, Option.some.injEq] at halias
        exact halias ▸ List.contains_iff_mem.mp hcontains
      · exact hall next halias
    exact ⟨m, .head (.settle_first hsettled) hrun, hdone, hmarked⟩
  | case4 left marked name rest target hget hnew hlt ih =>
    have halias : StandsFor aliases name target := by
      rcases h name with hsame | ⟨hnone, -⟩
      · rw [StandsFor, ← hsame, hget]
      · rw [hget] at hnone
        cases hnone
    obtain ⟨m, hrun, hdone, hmarked⟩ := ih (h.mark halias)
    have hunmarked : target ∉ marked := fun hmem => hnew (List.contains_iff_mem.mpr hmem)
    exact ⟨m, .head (.follow_first halias hunmarked) hrun, hdone, hmarked⟩

theorem mem_followErrors {aliases : KeyMap String} {roots : List String} {name : String} :
    name ∈ followErrors aliases roots roots ↔
      ∃ root ∈ roots, Relation.ReflTransGen (StandsFor aliases) root name := by
  have hstart : AliasesLeft aliases aliases roots := fun _ => .inl rfl
  have hend : ∃ m, Marking.Run aliases ⟨roots, roots⟩ m ∧ m.pending = [] ∧ m.marked = followErrors aliases roots roots :=
    exists_run_followErrors hstart
  obtain ⟨m, hrun, hdone, hmarked⟩ := hend
  rw [← hmarked]
  exact ((Marking.traced_start fun _ => Iff.rfl).run hrun).mem_marked hdone

end ClientGen
