import ClientGen.Proofs.Document.Order
import ClientGen.Resolve.Merge

/-
  ClientGen.Proofs.Merge.Reached — a flattening holds the properties of everything it reaches.

  A branch that is a reference leads to the component it names, any other branch to itself; a
  schema reached, unless it is a reference, leads on through the branches of its own `allOf`.
  References may lead in a circle, so `flatten` counts each once.
  - What is pending agrees with the components for every reference not visited yet
    (`Pending`); that is all that a flattening needs to know about where it stands.
  - Every part was reached (`reached_of_mem_flatten`).
  - Conversely, the schemas that a flattening expands are closed under leading on, short of
    references visited before (`exists_expanded`); at the start there are none, so whatever is
    reached has its properties in a part (`mem_flatten_of_reached`).
  - So what holds of the merged schema and of the components, and passes to branches, holds of
    every part (`of_mem_mergeParts`), and a merge has the properties of all that it reaches
    (`exists_part_iff`). Where the document is in order, so are all parts (`mergeParts_sorted`).
-/

namespace ClientGen

variable {doc : Document}

/-! ## Reaching schemas -/

/-- What a branch stands for. -/
inductive LeadsTo (doc : Document) (branch : Schema) : Schema → Prop
  | itself : branch.reference = none → LeadsTo doc branch branch
  | component {reference : String} {target : Schema} : branch.reference = some reference →
      doc.schemaByRef? reference = some target → LeadsTo doc branch target

/-- The schemas that a merge of these branches takes properties from. -/
inductive Reached (doc : Document) (branches : List Schema) : Schema → Prop
  | branch {b t : Schema} : b ∈ branches → LeadsTo doc b t → Reached doc branches t
  | nested {u b t : Schema} {inner : List Schema} : Reached doc branches u → u.reference = none →
      u.allOf = some inner → b ∈ inner → LeadsTo doc b t → Reached doc branches t

theorem LeadsTo.target {branch t : Schema} {reference : String} (h : LeadsTo doc branch t)
    (href : branch.reference = some reference) : doc.schemaByRef? reference = some t := by
  cases h with
  | itself hnone => rw [hnone] at href; cases href
  | component href' htarget =>
    rw [href] at href'
    cases href'
    exact htarget

/-! ## What is pending -/

/-- The pending components are those of the references not visited so far. -/
def Pending (doc : Document) (pending : KeyMap Schema) (visited : List String) : Prop :=
  ∀ reference ∉ visited, (Document.schemaRefName? reference).bind (KeyMap.get? pending) = doc.schemaByRef? reference

variable {pending : KeyMap Schema} {visited : List String} {reference name : String}

theorem pending_start (doc : Document) : Pending doc doc.components.schemas [] := fun _ _ => rfl

theorem Pending.visit (h : Pending doc pending visited) : Pending doc pending (reference :: visited) :=
  fun r hr => h r fun hmem => hr (List.mem_cons_of_mem _ hmem)

/-- References are different as soon as the components they name are. -/
theorem Pending.take (h : Pending doc pending visited) (hname : Document.schemaRefName? reference = some name) :
    Pending doc (withoutKey name pending) (reference :: visited) := by
  intro r hr
  rw [← h.visit r hr]
  cases hr' : Document.schemaRefName? r with
  | none => rfl
  | some k =>
    refine get?_withoutKey fun hk => hr ?_
    rw [textAfter?_eq_some_iff.mp hr', hk, ← textAfter?_eq_some_iff.mp hname]
    exact List.mem_cons_self

/-- The target of a reference as a flattening looks it up. -/
theorem Pending.target (h : Pending doc pending visited) (hseen : ¬ visited.contains reference = true)
    (hname : Document.schemaRefName? reference = some name) : KeyMap.get? pending name = doc.schemaByRef? reference := by
  rw [← h reference (by simpa using hseen), hname]
  rfl

/-! ## Every part was reached -/

/-- What a task leads to has the property. -/
def FlattenTask.Leads (doc : Document) (P : Schema → Prop) : FlattenTask → Prop
  | .expand branch => ∀ t, LeadsTo doc branch t → P t
  | .keep s => P s

theorem leads_ofTarget {branches : List Schema} {u : Schema} (hu : Reached doc branches u) {task : FlattenTask}
    (h : task ∈ FlattenTask.ofTarget u) : task.Leads doc (Reached doc branches) := by
  unfold FlattenTask.ofTarget at h
  split at h
  · rename_i inner href hinner
    rcases List.mem_append.mp h with h | h
    · obtain ⟨b, hb, rfl⟩ := List.mem_map.mp h
      exact fun t ht => .nested hu href hinner hb ht
    · split at h
      · cases List.mem_singleton.mp h
        exact hu
      · cases h
  · cases List.mem_singleton.mp h
    exact hu

theorem reached_of_mem_flatten {branches : List Schema} {tasks : List FlattenTask} {part : Schema}
    (hpending : Pending doc pending visited) (htasks : ∀ task ∈ tasks, task.Leads doc (Reached doc branches))
    (h : .schema part ∈ flatten pending visited tasks) : Reached doc branches part := by
  fun_induction flatten pending visited tasks with
  | case1 => cases h
  | case2 pending visited sch rest ih =>
    obtain ⟨hkeep, hrest⟩ := List.forall_mem_cons.mp htasks
    rcases List.mem_cons.mp h with h | h
    · cases h
      exact hkeep
    · exact ih hpending hrest h
  | case3 pending visited branch rest href ih =>
    obtain ⟨hexpand, hrest⟩ := List.forall_mem_cons.mp htasks
    refine ih hpending (List.forall_mem_append.mpr ⟨fun task ht => ?_, hrest⟩) h
    exact leads_ofTarget (hexpand branch (.itself href)) ht
  | case4 pending visited branch rest reference href hseen ih =>
    exact ih hpending (List.forall_mem_cons.mp htasks).2 h
  | case5 pending visited branch rest reference href hseen hname ih =>
    simp only [List.mem_cons, reduceCtorEq, false_or] at h
    exact ih hpending.visit (List.forall_mem_cons.mp htasks).2 h
  | case6 pending visited branch rest reference href hseen name hname hget ih =>
    simp only [List.mem_cons, reduceCtorEq, false_or] at h
    exact ih hpending.visit (List.forall_mem_cons.mp htasks).2 h
  | case7 pending visited branch rest reference href hseen name hname target hget hlt ih =>
    obtain ⟨hexpand, hrest⟩ := List.forall_mem_cons.mp htasks
    have htarget := (hpending.target hseen hname).symm.trans hget
    refine ih (hpending.take hname) (List.forall_mem_append.mpr ⟨fun task ht => ?_, hrest⟩) h
    exact leads_ofTarget (hexpand target (.component href htarget)) ht

/-! ## Everything reached is in a part -/

/-- What a branch leads to is among the schemas expanded, or its reference was visited before. -/
def Settled (doc : Document) (visited : List String) (expanded : Schema → Prop) (branch : Schema) : Prop :=
  ∀ t, LeadsTo doc branch t → expanded t ∨ ∃ reference ∈ visited, branch.reference = some reference

/-- The schemas that a flattening expands: their properties are in the parts, and their branches
    are settled. -/
structure Expanded (doc : Document) (visited : List String) (parts : List Part) (expanded : Schema → Prop) : Prop where
  properties : ∀ t, expanded t → t.hasProperties = true → .schema t ∈ parts
  branches : ∀ t inner, expanded t → t.reference = none → t.allOf = some inner →
    ∀ b ∈ inner, Settled doc visited expanded b

def FlattenTask.Done (doc : Document) (visited : List String) (parts : List Part) (expanded : Schema → Prop) :
    FlattenTask → Prop
  | .expand branch => Settled doc visited expanded branch
  | .keep s => .schema s ∈ parts

section Expanding

variable {visited' : List String} {parts parts' : List Part} {P Q : Schema → Prop} {u branch : Schema}

theorem Settled.mono (hPQ : ∀ t, P t → Q t) (h : Settled doc visited P branch) : Settled doc visited Q branch :=
  fun t ht => (h t ht).imp_left (hPQ t)

/-- A reference just visited still counts as not visited once its target is expanded. -/
theorem Settled.unvisit (htarget : ∀ t, doc.schemaByRef? reference = some t → P t)
    (h : Settled doc (reference :: visited) P branch) : Settled doc visited P branch := by
  intro t ht
  rcases h t ht with h | ⟨r, hr, href⟩
  · exact .inl h
  · rcases List.mem_cons.mp hr with rfl | hr
    · exact .inl (htarget t (ht.target href))
    · exact .inr ⟨r, hr, href⟩

theorem FlattenTask.Done.map {task : FlattenTask} (h : task.Done doc visited' parts P)
    (hsettled : ∀ b, Settled doc visited' P b → Settled doc visited Q b)
    (hparts : ∀ s, Part.schema s ∈ parts → .schema s ∈ parts') : task.Done doc visited parts' Q := by
  cases task with
  | expand branch => exact hsettled branch h
  | keep s => exact hparts s h

theorem Expanded.map (h : Expanded doc visited' parts P)
    (hsettled : ∀ b, Settled doc visited' P b → Settled doc visited P b)
    (hparts : ∀ s, Part.schema s ∈ parts → .schema s ∈ parts') : Expanded doc visited parts' P where
  properties t ht hprops := hparts t (h.properties t ht hprops)
  branches t inner ht href hinner b hb := hsettled b (h.branches t inner ht href hinner b hb)

/-- A schema is expanded once the tasks for it are done. -/
theorem Expanded.add (h : Expanded doc visited' parts P)
    (hu : ∀ task ∈ FlattenTask.ofTarget u, task.Done doc visited' parts P)
    (hsettled : ∀ b, Settled doc visited' P b → Settled doc visited (fun t => t = u ∨ P t) b) :
    Expanded doc visited parts (fun t => t = u ∨ P t) where
  properties t ht hprops := by
    rcases ht with rfl | ht
    · have hkeep : FlattenTask.keep t ∈ FlattenTask.ofTarget t := by
        unfold FlattenTask.ofTarget
        split <;> simp [hprops]
      exact hu _ hkeep
    · exact h.properties t ht hprops
  branches t inner ht href hinner b hb := by
    refine hsettled b ?_
    rcases ht with rfl | ht
    · have hexpand : FlattenTask.expand b ∈ FlattenTask.ofTarget t := by
        unfold FlattenTask.ofTarget
        rw [href, hinner]
        exact List.mem_append_left _ (List.mem_map_of_mem hb)
      exact hu _ hexpand
    · exact h.branches t inner ht href hinner b hb

/-- A reference without a target leads nowhere. -/
theorem exists_expanded_dangling {rest : List FlattenTask} (href : branch.reference = some reference)
    (hmissing : doc.schemaByRef? reference = none)
    (h : ∃ P, Expanded doc (reference :: visited) parts P ∧ ∀ task ∈ rest, task.Done doc (reference :: visited) parts P) :
    ∃ P, Expanded doc visited (.dangling reference :: parts) P ∧
      ∀ task ∈ .expand branch :: rest, task.Done doc visited (.dangling reference :: parts) P := by
  obtain ⟨P, hP, hrest⟩ := h
  have hsettled : ∀ b, Settled doc (reference :: visited) P b → Settled doc visited P b :=
    fun _ h => h.unvisit fun t ht => by rw [hmissing] at ht; cases ht
  have hparts : ∀ s, Part.schema s ∈ parts → .schema s ∈ Part.dangling reference :: parts :=
    fun _ => List.mem_cons_of_mem _
  refine ⟨P, hP.map hsettled hparts, List.forall_mem_cons.mpr ⟨fun t ht => ?_, ?_⟩⟩
  · have htarget := ht.target href
    rw [hmissing] at htarget
    cases htarget
  · exact fun task ht => (hrest task ht).map hsettled hparts

end Expanding

theorem exists_expanded {tasks : List FlattenTask} (hpending : Pending doc pending visited) :
    ∃ P, Expanded doc visited (flatten pending visited tasks) P ∧
      ∀ task ∈ tasks, task.Done doc visited (flatten pending visited tasks) P := by
  fun_induction flatten pending visited tasks with
  | case1 => exact ⟨fun _ => False, ⟨fun _ h => h.elim, fun _ _ h => h.elim⟩, by simp⟩
  | case2 pending visited sch rest ih =>
    obtain ⟨P, hP, hrest⟩ := ih hpending
    have hparts : ∀ s, Part.schema s ∈ flatten pending visited rest →
        .schema s ∈ Part.schema sch :: flatten pending visited rest := fun _ => List.mem_cons_of_mem _
    refine ⟨P, hP.map (fun _ h => h) hparts, List.forall_mem_cons.mpr ⟨List.mem_cons_self, ?_⟩⟩
    exact fun task ht => (hrest task ht).map (fun _ h => h) hparts
  | case3 pending visited branch rest href ih =>
    obtain ⟨P, hP, htasks⟩ := ih hpending
    obtain ⟨hbranch, hrest⟩ := List.forall_mem_append.mp htasks
    have hsettled : ∀ b, Settled doc visited P b → Settled doc visited (fun t => t = branch ∨ P t) b :=
      fun _ => Settled.mono fun _ => .inr
    refine ⟨_, hP.add hbranch hsettled, List.forall_mem_cons.mpr ⟨fun t ht => ?_, ?_⟩⟩
    · cases ht with
      | itself => exact .inl (.inl rfl)
      | component href' => rw [href] at href'; cases href'
    · exact fun task ht => (hrest task ht).map hsettled fun _ h => h
  | case4 pending visited branch rest reference href hseen ih =>
    obtain ⟨P, hP, hrest⟩ := ih hpending
    refine ⟨P, hP, List.forall_mem_cons.mpr ⟨fun t ht => .inr ⟨reference, by simpa using hseen, href⟩, hrest⟩⟩
  | case5 pending visited branch rest reference href hseen hname ih =>
    have hmissing : doc.schemaByRef? reference = none := by rw [Document.schemaByRef?, hname, Option.bind_none]
    exact exists_expanded_dangling href hmissing (ih hpending.visit)
  | case6 pending visited branch rest reference href hseen name hname hget ih =>
    have hmissing := (hpending.target hseen hname).symm.trans hget
    exact exists_expanded_dangling href hmissing (ih hpending.visit)
  | case7 pending visited branch rest reference href hseen name hname target hget hlt ih =>
    obtain ⟨P, hP, htasks⟩ := ih (hpending.take hname)
    obtain ⟨hopened, hrest⟩ := List.forall_mem_append.mp htasks
    have htarget := (hpending.target hseen hname).symm.trans hget
    have hsettled : ∀ b, Settled doc (reference :: visited) P b →
        Settled doc visited (fun t => t = target ∨ P t) b := by
      intro b h
      refine (h.mono fun _ => .inr).unvisit fun t ht => ?_
      rw [htarget] at ht
      cases ht
      exact .inl rfl
    refine ⟨_, hP.add hopened hsettled, List.forall_mem_cons.mpr ⟨fun t ht => ?_, ?_⟩⟩
    · exact .inl (.inl (Option.some.inj ((ht.target href).symm.trans htarget)))
    · exact fun task ht => (hrest task ht).map hsettled fun _ h => h

theorem mem_flatten_of_reached {branches : List Schema} {t : Schema} (h : Reached doc branches t)
    (hprops : t.hasProperties = true) : .schema t ∈ flatten doc.components.schemas [] (branches.map .expand) := by
  obtain ⟨P, hP, htasks⟩ := @exists_expanded doc _ _ (branches.map .expand) (pending_start doc)
  have hreach {b t : Schema} (hb : Settled doc [] P b) (ht : LeadsTo doc b t) : P t := by
    rcases hb t ht with ht | ⟨_, hmem, -⟩
    · exact ht
    · cases hmem
  refine hP.properties t ?_ hprops
  clear hprops
  induction h with
  | branch hb ht => exact hreach (htasks _ (List.mem_map_of_mem hb)) ht
  | nested _ href hinner hb ht ih => exact hreach (hP.branches _ _ ih href hinner _ hb) ht

/-! ## The parts of a merge -/

variable {sch : Schema} {branches : List Schema}

theorem reached_of_mem_mergeParts {part : Schema} (h : .schema part ∈ mergeParts doc sch branches) :
    part = sch ∨ Reached doc branches part := by
  rcases List.mem_append.mp h with h | h
  · refine .inr (reached_of_mem_flatten (pending_start doc) (fun task ht => ?_) h)
    obtain ⟨b, hb, rfl⟩ := List.mem_map.mp ht
    exact fun t => .branch hb
  · split at h
    · cases List.mem_singleton.mp h
      exact .inl rfl
    · cases h

/-- What holds of the schema and of the components, and passes to branches, holds of every part. -/
theorem of_mem_mergeParts {P : Schema → Prop}
    (hP : ∀ {s branches b}, P s → s.allOf = some branches → b ∈ branches → P b)
    (hcomponents : ∀ e ∈ doc.components.schemas, P e.2) (hs : P sch) (hb : sch.allOf = some branches) {part : Schema}
    (h : .schema part ∈ mergeParts doc sch branches) : P part := by
  have hleads {b t : Schema} (hb : P b) (ht : LeadsTo doc b t) : P t := by
    cases ht with
    | itself => exact hb
    | component _ htarget =>
      obtain ⟨name, -, hget⟩ := Document.schemaByRef?_eq_some_iff.mp htarget
      exact hcomponents _ (KeyMap.mem_of_get? hget)
  rcases reached_of_mem_mergeParts h with rfl | hreached
  · exact hs
  · clear h
    induction hreached with
    | branch hmem ht => exact hleads (hP hs hb hmem) ht
    | nested _ _ hinner hmem ht ih => exact hleads (hP ih hinner hmem) ht

/-- In a document that is read the properties of every part are in the order of their keys. -/
theorem mergeParts_sorted (hcomponents : doc.components.Sorted) (hs : sch.Sorted) (hb : sch.allOf = some branches)
    {part : Schema} (h : .schema part ∈ mergeParts doc sch branches) : KeyMap.Sorted part.propertyList := by
  have hpart : part.Sorted := of_mem_mergeParts Schema.Sorted.of_allOf hcomponents.properties hs hb h
  exact hpart.propertyList

/-- The properties of the parts of a merge are its own and those of the schemas it reaches. -/
theorem exists_part_iff {key : String} :
    (∃ part, .schema part ∈ mergeParts doc sch branches ∧ key ∈ part.propertyList.keys) ↔
      key ∈ sch.propertyList.keys ∨ ∃ t, Reached doc branches t ∧ key ∈ t.propertyList.keys := by
  have hprops {t : Schema} (hkey : key ∈ t.propertyList.keys) : t.hasProperties = true := by
    unfold Schema.hasProperties
    cases ht : t.propertyList with
    | nil => rw [ht] at hkey; cases hkey
    | cons e rest => rfl
  constructor
  · rintro ⟨part, hpart, hkey⟩
    rcases reached_of_mem_mergeParts hpart with rfl | hpart
    · exact .inl hkey
    · exact .inr ⟨part, hpart, hkey⟩
  · rintro (hkey | ⟨t, ht, hkey⟩)
    · refine ⟨sch, List.mem_append_right _ ?_, hkey⟩
      rw [if_pos (hprops hkey)]
      exact List.mem_singleton_self _
    · exact ⟨t, List.mem_append_left _ (mem_flatten_of_reached ht (hprops hkey)), hkey⟩

end ClientGen
