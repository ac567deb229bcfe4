import Mathlib.Logic.Relation
import ClientGen.Proofs.Merge.Contributed
import ClientGen.Proofs.Merge.Fields
import ClientGen.Proofs.Merge.Traversal

/-
  ClientGen.Proofs.Merge.Once — visiting every reference once merges the same struct.

  The plain flattening expands every reference each time it occurs (`Expands`). It has an end only if
  no component includes itself through its `allOf` (`Acyclic`). Then a flattening that meets a reference
  again has finished its component before, since the component does not lead back to the
  reference. So all the keys of the component have been seen, and it contributes nothing a second
  time. This is the invariant: of every reference that was visited and that may come again, the keys
  are all seen (`Consumed`).
-/

namespace ClientGen

open Relation (ReflTransGen TransGen)

/-! ## The plain flattening -/

/-- The parts of the tasks if every reference is expanded wherever it stands. -/
inductive Expands (doc : Document) : List FlattenTask → List Part → Prop
  | done : Expands doc [] []
  | keep {s : Schema} {rest : List FlattenTask} {parts : List Part} : Expands doc rest parts →
      Expands doc (.keep s :: rest) (.schema s :: parts)
  | inline {branch : Schema} {rest : List FlattenTask} {own more : List Part} : branch.reference = none →
      Expands doc (FlattenTask.ofTarget branch) own → Expands doc rest more →
      Expands doc (.expand branch :: rest) (own ++ more)
  | dangling {branch : Schema} {reference : String} {rest : List FlattenTask} {parts : List Part} :
      branch.reference = some reference → doc.schemaByRef? reference = none → Expands doc rest parts →
      Expands doc (.expand branch :: rest) (.dangling reference :: parts)
  | component {branch target : Schema} {reference : String} {rest : List FlattenTask} {own more : List Part} :
      branch.reference = some reference → doc.schemaByRef? reference = some target →
      Expands doc (FlattenTask.ofTarget target) own → Expands doc rest more →
      Expands doc (.expand branch :: rest) (own ++ more)

theorem Expands.unique {doc : Document} {tasks : List FlattenTask} {parts parts' : List Part}
    (h : Expands doc tasks parts) (h' : Expands doc tasks parts') : parts = parts' := by
  induction h generalizing parts' with
  | done => cases h'; rfl
  | keep _ ih =>
    cases h' with
    | keep h' => rw [ih h']
  | inline href _ _ ihown ihmore =>
    cases h' with
    | inline _ hown hmore => rw [ihown hown, ihmore hmore]
    | _ => simp_all
  | dangling href hmissing _ ih =>
    cases h' with
    | dangling href' _ h' =>
      obtain rfl := Option.some.inj (href.symm.trans href')
      rw [ih h']
    | _ => simp_all
  | component href htarget _ _ ihown ihmore =>
    cases h' with
    | component href' htarget' hown hmore =>
      obtain rfl := Option.some.inj (href.symm.trans href')
      obtain rfl := Option.some.inj (htarget.symm.trans htarget')
      rw [ihown hown, ihmore hmore]
    | _ => simp_all

/-! ## Components that include each other -/

/-- The reference is a branch, or a branch of its `allOf`, and so on inwards. -/
inductive Mentions : Schema → String → Prop
  | itself {branch : Schema} {reference : String} : branch.reference = some reference → Mentions branch reference
  | inside {branch b : Schema} {inner : List Schema} {reference : String} : branch.reference = none →
      branch.allOf = some inner → b ∈ inner → Mentions b reference → Mentions branch reference

/-- The component of a reference has the next reference among the branches of its `allOf`. -/
def Includes (doc : Document) (reference next : String) : Prop :=
  ∃ target, doc.schemaByRef? reference = some target ∧ target.reference = none ∧ Mentions target next

/-- No component that the branches lead to includes itself. -/
def Acyclic (doc : Document) (branches : List Schema) : Prop :=
  ∀ b ∈ branches, ∀ start, Mentions b start → ∀ reference, ReflTransGen (Includes doc) start reference →
    ¬ TransGen (Includes doc) reference reference

/-- The tasks may come to the reference. -/
def Ahead (doc : Document) (tasks : List FlattenTask) (reference : String) : Prop :=
  ∃ branch start, .expand branch ∈ tasks ∧ Mentions branch start ∧ ReflTransGen (Includes doc) start reference

section

variable {doc : Document} {rest : List FlattenTask} {task : FlattenTask} {branch target : Schema}
  {reference next : String}

theorem Ahead.later (h : Ahead doc rest reference) : Ahead doc (task :: rest) reference := by
  obtain ⟨branch, start, hmem, h⟩ := h
  exact ⟨branch, start, List.mem_cons_of_mem task hmem, h⟩

theorem ahead_of_reference (href : branch.reference = some reference) : Ahead doc (.expand branch :: rest) reference :=
  ⟨branch, reference, List.mem_cons_self, .itself href, .refl⟩

/-- The tasks for a schema come to what its branches mention. -/
theorem mentions_of_ofTarget (h : Ahead doc (FlattenTask.ofTarget target) reference) :
    target.reference = none ∧ ∃ start, Mentions target start ∧ ReflTransGen (Includes doc) start reference := by
  obtain ⟨branch, start, hmem, hmentions, hreach⟩ := h
  unfold FlattenTask.ofTarget at hmem
  split at hmem
  · rename_i inner href hinner
    have hbranch : branch ∈ inner := by
      rcases List.mem_append.mp hmem with hmem | hmem
      · obtain ⟨b, hb, heq⟩ := List.mem_map.mp hmem
        cases heq
        exact hb
      · split at hmem
        · cases List.mem_singleton.mp hmem
        · cases hmem
    exact ⟨href, start, .inside href hinner hbranch hmentions, hreach⟩
  · cases List.mem_singleton.mp hmem

theorem Ahead.inline (h : Ahead doc (FlattenTask.ofTarget branch) reference) :
    Ahead doc (.expand branch :: rest) reference := by
  obtain ⟨-, start, hmentions, hreach⟩ := mentions_of_ofTarget h
  exact ⟨branch, start, List.mem_cons_self, hmentions, hreach⟩

/-- What lies ahead in a component is included in it. -/
theorem Ahead.includes (h : Ahead doc (FlattenTask.ofTarget target) next)
    (htarget : doc.schemaByRef? reference = some target) : TransGen (Includes doc) reference next := by
  obtain ⟨href, start, hmentions, hreach⟩ := mentions_of_ofTarget h
  exact TransGen.head' ⟨target, htarget, href, hmentions⟩ hreach

theorem Ahead.component (h : Ahead doc (FlattenTask.ofTarget target) next) (href : branch.reference = some reference)
    (htarget : doc.schemaByRef? reference = some target) : Ahead doc (.expand branch :: rest) next :=
  ⟨branch, reference, List.mem_cons_self, .itself href, (h.includes htarget).to_reflTransGen⟩

end

/-! ## Visited references -/

/-- Expanding the reference once more gives only keys that were seen. -/
def Consumed (doc : Document) (seen : List String) (reference : String) : Prop :=
  ∀ branch, branch.reference = some reference → ∃ parts, Expands doc [.expand branch] parts ∧
    ∀ key ∈ partKeys parts, key ∈ seen

section

variable {doc : Document} {visited visited' seen seen' : List String} {tasks rest : List FlattenTask}
  {branch target : Schema} {reference : String} {parts own more : List Part}

theorem Consumed.mono (hseen : ∀ key ∈ seen, key ∈ seen') (h : Consumed doc seen reference) :
    Consumed doc seen' reference := by
  intro branch href
  obtain ⟨parts, hparts, hkeys⟩ := h branch href
  exact ⟨parts, hparts, fun key hkey => hseen key (hkeys key hkey)⟩

theorem consumed_of_missing (hmissing : doc.schemaByRef? reference = none) : Consumed doc seen reference := by
  intro branch href
  exact ⟨_, .dangling href hmissing .done, fun _ hkey => by cases hkey⟩

theorem consumed_of_target (htarget : doc.schemaByRef? reference = some target)
    (hown : Expands doc (FlattenTask.ofTarget target) own) (hkeys : ∀ key ∈ partKeys own, key ∈ seen) :
    Consumed doc seen reference := by
  intro branch href
  exact ⟨_, .component href htarget hown .done, by rwa [List.append_nil]⟩

/-- The first of several tasks is expanded by itself. -/
theorem Expands.prepend (hown : Expands doc [.expand branch] own) (hmore : Expands doc rest more) :
    Expands doc (.expand branch :: rest) (own ++ more) := by
  cases hown with
  | inline href hown hdone =>
    cases hdone
    rw [List.append_nil]
    exact .inline href hown hmore
  | dangling href hmissing hdone =>
    cases hdone
    exact .dangling href hmissing hmore
  | component href htarget hown hdone =>
    cases hdone
    rw [List.append_nil]
    exact .component href htarget hown hmore

/-- The plain flattening of the tasks contributes what these parts do, and after them every reference
    that was visited is consumed, short of those from before. -/
def Keeps (doc : Document) (seen visited : List String) (tasks : List FlattenTask) (parts : List Part)
    (visited' : List String) : Prop :=
  ∃ plain, Expands doc tasks plain ∧ contributions seen plain = contributions seen parts ∧
    ∀ r ∈ visited', r ∈ visited ∨ Consumed doc (partKeys parts ++ seen) r

/-- After the first task, the others go on with the references and the keys that it leaves behind. -/
theorem keeps_after {between : List String} {plain : List Part}
    (hplain : contributions seen plain = contributions seen own)
    (hbetween : ∀ r ∈ between, r ∈ visited ∨ Consumed doc (partKeys own ++ seen) r)
    (hvisited : ∀ r ∈ visited, Ahead doc rest r → Consumed doc seen r)
    (hmore : (∀ r ∈ between, Ahead doc rest r → Consumed doc (partKeys own ++ seen) r) →
      Keeps doc (partKeys own ++ seen) between rest more visited') :
    ∃ plainMore, Expands doc rest plainMore ∧
      contributions seen (plain ++ plainMore) = contributions seen (own ++ more) ∧
      ∀ r ∈ visited', r ∈ visited ∨ Consumed doc (partKeys (own ++ more) ++ seen) r := by
  have hold : ∀ key ∈ seen, key ∈ partKeys own ++ seen := fun _ => List.mem_append_right _
  obtain ⟨plainMore, hexpands, hcontributions, hlast⟩ := hmore fun r hr hahead =>
    (hbetween r hr).elim (fun hr => (hvisited r hr hahead).mono hold) id
  have hkeys : ∀ key, key ∈ partKeys plain ++ seen ↔ key ∈ partKeys own ++ seen := fun key => by
    rw [mem_partKeys_iff, mem_partKeys_iff, hplain]
  refine ⟨plainMore, hexpands, contributions_append_congr hplain ?_, ?_⟩
  · rwa [contributions_congr hkeys, contributions_congr hkeys]
  · intro r hr
    rw [partKeys_append]
    rcases hlast r hr with hr | hr
    · refine (hbetween r hr).imp_right (Consumed.mono fun key hkey => ?_)
      rw [List.append_assoc]
      exact (List.mem_append.mp hkey).elim (List.mem_append_left _) fun hkey =>
        List.mem_append_right _ (List.mem_append_right _ hkey)
    · refine .inr (hr.mono fun key hkey => ?_)
      simp only [List.mem_append] at hkey ⊢
      exact or_assoc.mpr (or_left_comm.mp hkey)

/-- Where nothing ahead includes itself, and of the references visited before those ahead are
    consumed, a traversal has the contributions of the plain flattening. -/
theorem keeps_of_flattens (h : Flattens doc visited tasks parts visited')
    (hacyclic : ∀ r, Ahead doc tasks r → ¬ TransGen (Includes doc) r r)
    (hvisited : ∀ r ∈ visited, Ahead doc tasks r → Consumed doc seen r) :
    Keeps doc seen visited tasks parts visited' := by
  induction h generalizing seen with
  | done => exact ⟨[], .done, rfl, fun r hr => .inl hr⟩
  | @keep visited visited' s rest parts _ ih =>
    obtain ⟨plain, hexpands, hcontributions, hlast⟩ := keeps_after
      (rfl : contributions seen [.schema s] = contributions seen [.schema s]) (fun r hr => .inl hr)
      (fun r hr hahead => hvisited r hr hahead.later) (ih fun r hr => hacyclic r hr.later)
    exact ⟨_, .keep hexpands, hcontributions, hlast⟩
  | @inline visited between visited' branch rest own more href _ _ ihown ihmore =>
    obtain ⟨plainOwn, hown, hownContributions, hbetween⟩ :=
      ihown (fun r hr => hacyclic r hr.inline) fun r hr hahead => hvisited r hr hahead.inline
    obtain ⟨plain, hexpands, hcontributions, hlast⟩ := keeps_after hownContributions hbetween
      (fun r hr hahead => hvisited r hr hahead.later) (ihmore fun r hr => hacyclic r hr.later)
    exact ⟨_, .inline href hown hexpands, hcontributions, hlast⟩
  | @again visited visited' branch reference rest parts href hmem _ ih =>
    -- The component was finished when its reference came before, so it has no new keys.
    obtain ⟨plainOwn, hown, hkeys⟩ := hvisited reference hmem (ahead_of_reference href) branch href
    have hnothing : contributions seen plainOwn = contributions seen [] := contributions_eq_nil hkeys
    obtain ⟨plain, hexpands, hcontributions, hlast⟩ := keeps_after hnothing (fun r hr => .inl hr)
      (fun r hr hahead => hvisited r hr hahead.later) (ih fun r hr => hacyclic r hr.later)
    exact ⟨_, hown.prepend hexpands, hcontributions, hlast⟩
  | @dangling visited visited' branch reference rest parts href hmem hmissing _ ih =>
    have hbetween : ∀ r ∈ reference :: visited, r ∈ visited ∨
        Consumed doc (partKeys [.dangling reference] ++ seen) r := by
      intro r hr
      rcases List.mem_cons.mp hr with rfl | hr
      · exact .inr (consumed_of_missing hmissing)
      · exact .inl hr
    obtain ⟨plain, hexpands, hcontributions, hlast⟩ := keeps_after
      (rfl : contributions seen [.dangling reference] = contributions seen [.dangling reference]) hbetween
      (fun r hr hahead => hvisited r hr hahead.later) (ih fun r hr => hacyclic r hr.later)
    exact ⟨_, .dangling href hmissing hexpands, hcontributions, hlast⟩
  | @component visited between visited' branch target reference rest own more href hmem htarget _ _ ihown ihmore =>
    have hself : ¬ Ahead doc (FlattenTask.ofTarget target) reference := fun hahead =>
      hacyclic reference (ahead_of_reference href) (hahead.includes htarget)
    obtain ⟨plainOwn, hown, hownContributions, hconsumed⟩ := ihown
      (fun r hr => hacyclic r (hr.component href htarget)) fun r hr hahead => by
        rcases List.mem_cons.mp hr with rfl | hr
        · exact absurd hahead hself
        · exact hvisited r hr (hahead.component href htarget)
    have hbetween : ∀ r ∈ between, r ∈ visited ∨ Consumed doc (partKeys own ++ seen) r := by
      intro r hr
      rcases hconsumed r hr with hr | hr
      · rcases List.mem_cons.mp hr with rfl | hr
        · refine .inr (consumed_of_target htarget hown fun key hkey => ?_)
          rw [mem_partKeys_iff, ← hownContributions, ← mem_partKeys_iff]
          exact List.mem_append_left _ hkey
        · exact .inl hr
      · exact .inr hr
    obtain ⟨plain, hexpands, hcontributions, hlast⟩ := keeps_after hownContributions hbetween
      (fun r hr hahead => hvisited r hr hahead.later) (ihmore fun r hr => hacyclic r hr.later)
    exact ⟨_, .component href htarget hown hexpands, hcontributions, hlast⟩

end

/-! ## The merge -/

variable {doc : Document} {branches : List Schema}

theorem not_includes_itself_ahead (h : Acyclic doc branches) {reference : String}
    (hahead : Ahead doc (branches.map .expand) reference) : ¬ TransGen (Includes doc) reference reference := by
  obtain ⟨branch, start, hmem, hmentions, hreach⟩ := hahead
  obtain ⟨b, hb, heq⟩ := List.mem_map.mp hmem
  cases heq
  exact h branch hb start hmentions reference hreach

open Resolve in
/-- Where no component includes itself, every reference can be expanded each time it occurs, and merging
    the parts that this gives is merging with every reference visited once: the answers are the same,
    with all their fields and nested declarations. -/
theorem mergeAllOf_expands (hacyclic : Acyclic doc branches) :
    (∃ parts, Expands doc (branches.map .expand) parts) ∧
      ∀ parts, Expands doc (branches.map .expand) parts → ∀ fuel sch name,
        SameAnswers (mergeAllOf doc (resolveAt doc fuel) sch branches name)
          (mergeOf (resolveAt doc fuel) sch (parts ++ if sch.hasProperties then [.schema sch] else []) name) := by
  obtain ⟨visited, h⟩ := @flattens_flatten doc _ _ (branches.map .expand) (pending_start doc)
  have hkeeps : Keeps doc [] [] (branches.map .expand) (flatten doc.components.schemas [] (branches.map .expand))
      visited :=
    keeps_of_flattens h (fun r hr => not_includes_itself_ahead hacyclic hr) fun r hr => by cases hr
  obtain ⟨plain, hexpands, hcontributions, -⟩ := hkeeps
  refine ⟨⟨plain, hexpands⟩, fun parts hparts fuel sch name => ?_⟩
  rw [hparts.unique hexpands, mergeAllOf_eq]
  exact sameAnswers_mergeOf (resolveAt_answersAlike doc fuel) rfl rfl
    (contributions_append_congr hcontributions.symm rfl) name

/-! ## A component that comes again -/

/-- Where references rank below those that include them, nothing includes itself. -/
theorem acyclic_of_rank (rank : String → Nat) (h : ∀ a b, Includes doc a b → rank b < rank a) :
    Acyclic doc branches := by
  have hrank {a b : String} (hab : TransGen (Includes doc) a b) : rank b < rank a := by
    induction hab with
    | single hab => exact h _ _ hab
    | tail _ hbc ih => exact (h _ _ hbc).trans ih
  intro _ _ _ _ r _ hcycle
  exact Nat.lt_irrefl _ (hrank hcycle)

def refersTo (key : String) : Schema := { Schema.blank with reference := some ("#/components/schemas/" ++ key) }

def baseSchema : Schema := { Schema.blank with properties := some [("id", typed "string")] }

def leftSchema : Schema :=
  { Schema.blank with allOf := some [refersTo "Base"], properties := some [("left", typed "string")] }

def rightSchema : Schema :=
  { Schema.blank with allOf := some [refersTo "Base"], properties := some [("id", typed "integer")] }

/-- Two components that include a third. -/
def diamond : Document :=
  { openapi := "3.0.0", info := ⟨"t", "1", none⟩, servers := [], tags := [], paths := []
    components := ⟨[("Base", baseSchema), ("Left", leftSchema), ("Right", rightSchema)], [], [], []⟩ }

theorem diamond_acyclic : Acyclic diamond [refersTo "Left", refersTo "Right"] := by
  have hbase {b : String} {sch : Schema} (hnone : sch.reference = none) (hallOf : sch.allOf = some [refersTo "Base"])
      (h : Mentions sch b) : b = "#/components/schemas/Base" := by
    cases h with
    | itself href => rw [hnone] at href; cases href
    | inside _ hinner hmem h =>
      obtain rfl := Option.some.inj (hallOf.symm.trans hinner)
      obtain rfl := List.mem_singleton.mp hmem
      cases h with
      | itself href => exact (Option.some.inj href).symm
      | inside href _ _ _ => cases href
  refine acyclic_of_rank (fun r => if r = "#/components/schemas/Base" then 0 else 1) fun a b hab => ?_
  obtain ⟨target, htarget, hnone, hmentions⟩ := hab
  obtain ⟨key, rfl, hget⟩ := Document.schemaByRef?_eq_some_iff.mp htarget
  have hmem : (key, target) ∈ diamond.components.schemas := KeyMap.mem_of_get? hget
  simp only [diamond, List.mem_cons, List.not_mem_nil, or_false, Prod.mk.injEq] at hmem
  rcases hmem with ⟨rfl, rfl⟩ | ⟨rfl, rfl⟩ | ⟨rfl, rfl⟩
  · cases hmentions with
    | itself href => cases href
    | inside _ hinner _ _ => cases hinner
  · rw [hbase rfl rfl hmentions]
    decide
  · rw [hbase rfl rfl hmentions]
    decide

/-- The third component is expanded twice. -/
theorem diamond_expands : Expands diamond ([refersTo "Left", refersTo "Right"].map .expand)
    [.schema baseSchema, .schema leftSchema, .schema baseSchema, .schema rightSchema] := by
  have hbase : diamond.schemaByRef? "#/components/schemas/Base" = some baseSchema := by cbv
  have hleft : diamond.schemaByRef? "#/components/schemas/Left" = some leftSchema := by cbv
  have hright : diamond.schemaByRef? "#/components/schemas/Right" = some rightSchema := by cbv
  have hside {s : Schema} : Expands diamond [.expand (refersTo "Base"), .keep s] [.schema baseSchema, .schema s] :=
    .component rfl hbase (.keep .done) (.keep .done)
  exact .component rfl hleft hside (.component rfl hright hside .done)

open Resolve in
theorem mergeAllOf_expands_diamond :
    Acyclic diamond [refersTo "Left", refersTo "Right"] ∧
      (∃ parts, Expands diamond ([refersTo "Left", refersTo "Right"].map .expand) parts) ∧
      ∀ fuel sch name, SameAnswers (mergeAllOf diamond (resolveAt diamond fuel) sch [refersTo "Left", refersTo "Right"] name)
        (mergeOf (resolveAt diamond fuel) sch
          ([.schema baseSchema, .schema leftSchema, .schema baseSchema, .schema rightSchema] ++
            if sch.hasProperties then [.schema sch] else []) name) :=
  ⟨diamond_acyclic, (mergeAllOf_expands diamond_acyclic).1, (mergeAllOf_expands diamond_acyclic).2 _ diamond_expands⟩

end ClientGen
