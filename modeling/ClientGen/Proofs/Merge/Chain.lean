import ClientGen.Proofs.Merge.Once

/-
  ClientGen.Proofs.Merge.Chain — a reference to a reference adds nothing to a merge.

  A flattening looks up what a branch refers to and takes it as it is. Where that is a reference once
  more, it is not followed: it has no properties of its own and so it is a part that contributes nothing
  (`Idle`). Whether such a reference was visited makes no difference either (`Flattens.forget`).
  So a merge with such a branch is the merge without it (`contributing_flatten_idle`), and going through it
  instead of straight to its target loses whatever the target adds (`mergeWith_chain_iff`).
-/

namespace ClientGen

/-- The reference leads to a component that is a reference itself. -/
def Idle (doc : Document) (reference : String) : Prop :=
  ∃ target, doc.schemaByRef? reference = some target ∧ target.reference.isSome = true ∧ target.hasProperties = false

section

variable {doc : Document} {visited visited' other : List String} {tasks rest : List FlattenTask}
  {parts own more : List Part} {branch target : Schema} {reference : String}

theorem contributing_append (parts more : List Part) :
    contributing (parts ++ more) = contributing parts ++ contributing more := List.filterMap_append

theorem contributing_cons {part : Part} (h : contributing parts = contributing more) :
    contributing (part :: parts) = contributing (part :: more) := by
  have hcons (parts : List Part) : contributing (part :: parts) = contributing [part] ++ contributing parts :=
    contributing_append [part] parts
  rw [hcons parts, hcons more, h]

/-- The same references were visited, short of idle ones. -/
def AgreeButIdle (doc : Document) (visited other : List String) : Prop :=
  ∀ reference, ¬ Idle doc reference → (reference ∈ visited ↔ reference ∈ other)

theorem AgreeButIdle.cons (h : AgreeButIdle doc visited other) (reference : String) :
    AgreeButIdle doc (reference :: visited) (reference :: other) := by
  intro r hr
  rw [List.mem_cons, List.mem_cons, h r hr]

theorem AgreeButIdle.cons_left (h : AgreeButIdle doc visited other) (hidle : Idle doc reference) :
    AgreeButIdle doc (reference :: visited) other := by
  intro r hr
  rw [List.mem_cons, h r hr, or_iff_right]
  rintro rfl
  exact hr hidle

theorem AgreeButIdle.cons_right (h : AgreeButIdle doc visited other) (hidle : Idle doc reference) :
    AgreeButIdle doc visited (reference :: other) := by
  intro r hr
  rw [List.mem_cons, h r hr, or_iff_right]
  rintro rfl
  exact hr hidle

/-- What an idle reference leads to is kept as it is, and has no properties. -/
theorem Idle.flattens (h : Idle doc reference) (htarget : doc.schemaByRef? reference = some target)
    (visited : List String) : Flattens doc visited (FlattenTask.ofTarget target) [.schema target] visited ∧
      contributing [.schema target] = [] := by
  obtain ⟨t, ht, href, hprops⟩ := h
  obtain rfl := Option.some.inj (htarget.symm.trans ht)
  have hkept : FlattenTask.ofTarget target = [.keep target] := by
    unfold FlattenTask.ofTarget
    split
    · rename_i hnone _
      rw [hnone] at href
      cases href
    · rfl
  rw [hkept]
  exact ⟨.keep .done, by simp [contributing, hprops]⟩

/-- Idle references may have been visited or not. -/
theorem Flattens.forget (h : Flattens doc visited tasks parts visited') (hagree : AgreeButIdle doc visited other) :
    ∃ parts' last, Flattens doc other tasks parts' last ∧ contributing parts' = contributing parts ∧
      AgreeButIdle doc visited' last := by
  induction h generalizing other with
  | done => exact ⟨[], other, .done, rfl, hagree⟩
  | keep _ ih =>
    obtain ⟨parts', last, h, hparts, hlast⟩ := ih hagree
    exact ⟨_, last, .keep h, contributing_cons hparts, hlast⟩
  | inline href _ _ ihown ihmore =>
    obtain ⟨own', between, hown, hownParts, hbetween⟩ := ihown hagree
    obtain ⟨more', last, hmore, hmoreParts, hlast⟩ := ihmore hbetween
    refine ⟨_, last, .inline href hown hmore, ?_, hlast⟩
    rw [contributing_append, contributing_append, hownParts, hmoreParts]
  | @again visited visited' branch reference rest parts href hmem _ ih =>
    by_cases hother : reference ∈ other
    · obtain ⟨parts', last, h, hparts, hlast⟩ := ih hagree
      exact ⟨_, last, .again href hother h, hparts, hlast⟩
    · have hidle : Idle doc reference := by_contra fun hnot => hother ((hagree reference hnot).mp hmem)
      obtain ⟨target, htarget, -⟩ := id hidle
      obtain ⟨hkept, hnothing⟩ := hidle.flattens htarget (reference :: other)
      obtain ⟨parts', last, h, hparts, hlast⟩ := ih (hagree.cons_right hidle)
      refine ⟨_, last, .component href hother htarget hkept h, ?_, hlast⟩
      rw [contributing_append, hnothing, List.nil_append, hparts]
  | @dangling visited visited' branch reference rest parts href hmem hmissing _ ih =>
    have hidle : ¬ Idle doc reference := by
      rintro ⟨t, ht, -⟩
      rw [hmissing] at ht
      cases ht
    obtain ⟨parts', last, h, hparts, hlast⟩ := ih (hagree.cons reference)
    exact ⟨_, last, .dangling href (mt (hagree reference hidle).mpr hmem) hmissing h, contributing_cons hparts, hlast⟩
  | @component visited between visited' branch target reference rest own more href hmem htarget hown _ ihown ihmore =>
    by_cases hother : reference ∈ other
    · have hidle : Idle doc reference := by_contra fun hnot => hmem ((hagree reference hnot).mpr hother)
      obtain ⟨hkept, hnothing⟩ := hidle.flattens htarget (reference :: visited)
      obtain ⟨rfl, rfl⟩ := hown.unique hkept
      obtain ⟨more', last, hmore, hmoreParts, hlast⟩ := ihmore (hagree.cons_left hidle)
      refine ⟨_, last, .again href hother hmore, ?_, hlast⟩
      rw [contributing_append, hnothing, List.nil_append, hmoreParts]
    · obtain ⟨own', between', hown, hownParts, hbetween⟩ := ihown (hagree.cons reference)
      obtain ⟨more', last, hmore, hmoreParts, hlast⟩ := ihmore hbetween
      refine ⟨_, last, .component href hother htarget hown hmore, ?_, hlast⟩
      rw [contributing_append, contributing_append, hownParts, hmoreParts]

/-- A branch with an idle reference adds nothing to a flattening. -/
theorem contributing_flatten_idle (hidle : Idle doc reference) (href : branch.reference = some reference)
    (before after : List Schema) :
    contributing (flatten doc.components.schemas [] ((before ++ branch :: after).map .expand)) =
      contributing (flatten doc.components.schemas [] ((before ++ after).map .expand)) := by
  rw [List.map_append, List.map_append]
  obtain ⟨last, hwith⟩ :=
    @flattens_flatten doc _ _ (before.map .expand ++ (branch :: after).map .expand) (pending_start doc)
  obtain ⟨last', hwithout⟩ := @flattens_flatten doc _ _ (before.map .expand ++ after.map .expand) (pending_start doc)
  obtain ⟨own, between, rest, hown, hrest, hparts⟩ := hwith.split
  -- Behind the branch the traversal goes on as if the branch were not there.
  have hafter : ∃ visited more, AgreeButIdle doc visited between ∧ Flattens doc visited (after.map .expand) more last ∧
      contributing rest = contributing more := by
    have hsame : AgreeButIdle doc between between := fun _ _ => Iff.rfl
    cases hrest with
    | inline hnone _ _ =>
      rw [href] at hnone
      cases hnone
    | again _ _ h => exact ⟨_, _, hsame, h, rfl⟩
    | dangling href' _ hmissing _ =>
      obtain rfl := Option.some.inj (href.symm.trans href')
      obtain ⟨target, htarget, -⟩ := hidle
      rw [hmissing] at htarget
      cases htarget
    | component href' _ htarget hbranch h =>
      obtain rfl := Option.some.inj (href.symm.trans href')
      obtain ⟨hkept, hnothing⟩ := hidle.flattens htarget (reference :: between)
      obtain ⟨rfl, rfl⟩ := hbranch.unique hkept
      exact ⟨_, _, hsame.cons_left hidle, h, by rw [contributing_append, hnothing, List.nil_append]⟩
  obtain ⟨visited, more, hagree, hmore, hrestParts⟩ := hafter
  obtain ⟨more', last'', hmore', hmoreParts, -⟩ := hmore.forget hagree
  obtain ⟨heq, -⟩ := hwithout.unique (hown.append hmore')
  rw [hparts, heq, contributing_append, contributing_append, hrestParts, hmoreParts]

end

/-! ## The merge -/

namespace Schema

def withBranches (s : Schema) (branches : List Schema) : Schema := { s with allOf := some branches }

def referringTo (s : Schema) (reference : String) : Schema := { s with reference := some reference }

theorem hasProperties_withBranches (s : Schema) (branches : List Schema) :
    (s.withBranches branches).hasProperties = s.hasProperties := rfl

end Schema

namespace Resolve

/-- Merge a schema with these branches in place of its own. -/
def mergeWith (doc : Document) (fuel : Nat) (s : Schema) (name : String) (branches : List Schema) : Resolve Resolution :=
  mergeAllOf doc (resolveAt doc fuel) (s.withBranches branches) branches name

theorem sameAnswers_mergeWith {doc : Document} {branches branches' : List Schema}
    (h : contributing (flatten doc.components.schemas [] (branches.map .expand)) =
      contributing (flatten doc.components.schemas [] (branches'.map .expand)))
    (fuel : Nat) (sch : Schema) (name : String) :
    SameAnswers (mergeWith doc fuel sch name branches) (mergeWith doc fuel sch name branches') := by
  have hown (seen : List String) : contributions seen [.schema (sch.withBranches branches)] =
      contributions seen [.schema (sch.withBranches branches')] := rfl
  have hparts : contributions [] (mergeParts doc (sch.withBranches branches) branches) =
      contributions [] (mergeParts doc (sch.withBranches branches') branches') := by
    refine contributions_append_congr (contributions_contributing h []) ?_
    rw [Schema.hasProperties_withBranches, Schema.hasProperties_withBranches]
    split
    · exact hown _
    · rfl
  have hrequired : (sch.withBranches branches).required = (sch.withBranches branches').required := rfl
  exact @sameAnswers_mergeOf _ (resolveAt_answersAlike doc fuel) (sch.withBranches branches)
    (sch.withBranches branches') hrequired rfl _ _ hparts name

/-- A branch that refers to a reference adds nothing: the merge answers as it does without the branch.
    So going straight to where that reference leads gives the same answers exactly when leaving the
    branch out does. -/
theorem mergeWith_chain_iff {doc : Document} {target : Schema} {reference next : String}
    (htarget : doc.schemaByRef? reference = some target) (hnext : target.reference = some next)
    (hbare : target.propertyList = []) (fuel : Nat) (sch : Schema) (name : String) (branch : Schema)
    (before after : List Schema) :
    SameAnswers (mergeWith doc fuel sch name (before ++ branch.referringTo reference :: after))
        (mergeWith doc fuel sch name (before ++ after)) ∧
      (SameAnswers (mergeWith doc fuel sch name (before ++ branch.referringTo next :: after))
          (mergeWith doc fuel sch name (before ++ branch.referringTo reference :: after)) ↔
        SameAnswers (mergeWith doc fuel sch name (before ++ branch.referringTo next :: after))
          (mergeWith doc fuel sch name (before ++ after))) := by
  have hidle : Idle doc reference := by
    refine ⟨target, htarget, by rw [hnext]; rfl, ?_⟩
    simp [Schema.hasProperties, hbare]
  have hnothing : SameAnswers (mergeWith doc fuel sch name (before ++ branch.referringTo reference :: after))
      (mergeWith doc fuel sch name (before ++ after)) :=
    sameAnswers_mergeWith (contributing_flatten_idle hidle rfl before after) fuel sch name
  exact ⟨hnothing, fun h => h.trans hnothing, fun h => h.trans hnothing.symm⟩

/-! ## A component that is only another name -/

/-- The component `Alias` is a reference to `Base`. -/
def aliased : Document :=
  { openapi := "3.0.0", info := ⟨"t", "1", none⟩, servers := [], tags := [], paths := []
    components := ⟨[("Alias", refersTo "Base"), ("Base", baseSchema)], [], [], []⟩ }

def tagBranch : Schema := { Schema.blank with properties := some [("tag", typed "string")] }

theorem mergeWith_chain_iff_alias :
    aliased.schemaByRef? "#/components/schemas/Alias" = some (refersTo "Base") ∧
      (refersTo "Base").reference = some "#/components/schemas/Base" ∧ (refersTo "Base").propertyList = [] ∧
      SameAnswers (mergeWith aliased 1 Schema.blank "Record" [refersTo "Alias", tagBranch])
        (mergeWith aliased 1 Schema.blank "Record" [tagBranch]) ∧
      (SameAnswers (mergeWith aliased 1 Schema.blank "Record" [refersTo "Base", tagBranch])
          (mergeWith aliased 1 Schema.blank "Record" [refersTo "Alias", tagBranch]) ↔
        SameAnswers (mergeWith aliased 1 Schema.blank "Record" [refersTo "Base", tagBranch])
          (mergeWith aliased 1 Schema.blank "Record" [tagBranch])) := by
  have htarget : aliased.schemaByRef? "#/components/schemas/Alias" = some (refersTo "Base") := by cbv
  exact ⟨htarget, rfl, rfl, mergeWith_chain_iff htarget rfl rfl 1 Schema.blank "Record" Schema.blank [] [tagBranch]⟩

/-- Merged through the alias the record has no `id`. -/
theorem alias_loses_fields :
    aliased.schemaByRef? "#/components/schemas/Alias" = some (refersTo "Base") ∧
      (∃ s', Runs (mergeWith aliased 1 Schema.blank "Record" [refersTo "Base", tagBranch]) .start
        ⟨.named "Record", [.type ⟨"Record", .struct [⟨"Id", .scalar .string, true, "id", none⟩,
          ⟨"Tag", .scalar .string, true, "tag", none⟩], none, false⟩]⟩ s') ∧
      ∃ s', Runs (mergeWith aliased 1 Schema.blank "Record" [refersTo "Alias", tagBranch]) .start
        ⟨.named "Record", [.type ⟨"Record", .struct [⟨"Tag", .scalar .string, true, "tag", none⟩], none, false⟩]⟩
        s' := by
  refine ⟨by cbv, ?_, ?_⟩
  · apply exists_runs_of_answers
    cbv
  · apply exists_runs_of_answers
    cbv

end Resolve

end ClientGen
