import ClientGen.Resolve.Basic

/-
  ClientGen.Resolve.Merge — `allOf` as one struct.

  `flatten` lists the schemas that contribute, depth first: a reference stands for the component
  it names, and a schema with an `allOf` of its own for its branches and then, if it has
  properties, itself. Every reference counts once, so cycles end. The merged schema's own
  properties come last.
  `mergeParts` takes every property from the first part that has it.
-/

namespace ClientGen

/-- A contributor to a merge. -/
inductive Part where
  | schema (s : Schema)
  /-- A reference without a target. -/
  | dangling (reference : String)

/-- What is left to do in a flattening: expand a branch, or take a schema as it is. -/
inductive FlattenTask where
  | expand (branch : Schema)
  | keep (s : Schema)

namespace FlattenTask

/-- Bounds the tasks that a task leads to without a reference. -/
noncomputable def weight : FlattenTask → Nat
  | .expand s => sizeOf s + 1
  | .keep _ => 1

theorem weight_pos (task : FlattenTask) : 0 < task.weight := by
  cases task with
  | expand s => exact Nat.succ_pos _
  | keep s => exact Nat.one_pos

noncomputable def totalWeight : List FlattenTask → Nat
  | [] => 0
  | task :: rest => task.weight + totalWeight rest

theorem totalWeight_append (tasks more : List FlattenTask) :
    totalWeight (tasks ++ more) = totalWeight tasks + totalWeight more := by
  induction tasks with
  | nil => exact (Nat.zero_add _).symm
  | cons task rest ih => rw [List.cons_append, totalWeight, totalWeight, ih, Nat.add_assoc]

theorem totalWeight_rest_lt (task : FlattenTask) (rest : List FlattenTask) :
    totalWeight rest < totalWeight (task :: rest) := by
  have := task.weight_pos
  rw [totalWeight]
  omega

/-- The tasks for a schema that was reached. -/
def ofTarget (s : Schema) : List FlattenTask :=
  match s.reference, s.allOf with
  | none, some branches => branches.map .expand ++ if s.hasProperties then [.keep s] else []
  | _, _ => [.keep s]

theorem totalWeight_expand (branches : List Schema) : totalWeight (branches.map .expand) < sizeOf branches := by
  induction branches with
  | nil => exact Nat.one_pos
  | cons b rest ih =>
    rw [List.map_cons, totalWeight, weight, List.cons.sizeOf_spec]
    omega

theorem totalWeight_ofTarget (s : Schema) : totalWeight (ofTarget s) ≤ sizeOf s := by
  obtain ⟨reference, type, format, title, description, items, properties, required, enumValues, additional, allOf,
    oneOf, anyOf, nullable, deprecated⟩ := s
  unfold ofTarget
  split
  · rename_i branches _ h
    simp only at h; subst h
    have := totalWeight_expand branches
    simp only [totalWeight_append, Schema.mk.sizeOf_spec, Option.some.sizeOf_spec]
    split <;> simp only [totalWeight, weight] <;> omega
  · simp only [totalWeight, weight, Schema.mk.sizeOf_spec]
    omega

theorem totalWeight_ofTarget_lt (s : Schema) (rest : List FlattenTask) :
    totalWeight (ofTarget s ++ rest) < totalWeight (.expand s :: rest) := by
  have := totalWeight_ofTarget s
  rw [totalWeight_append, totalWeight, weight]
  omega

end FlattenTask

/-- The components left after one was reached. -/
def withoutKey (name : String) (m : KeyMap α) : KeyMap α := m.filter (·.1 ≠ name)

theorem length_withoutKey_lt {name : String} {m : KeyMap α} {a : α} (h : KeyMap.get? m name = some a) :
    (withoutKey name m).length < m.length := by
  induction m with
  | nil => cases h
  | cons e m ih =>
    obtain ⟨k, v⟩ := e
    by_cases hk : name = k
    · subst hk
      have := List.length_filter_le (fun e : String × α => decide (e.1 ≠ name)) m
      simp only [withoutKey, List.filter_cons, ne_eq, not_true_eq_false, decide_false, Bool.false_eq_true,
        if_false, List.length_cons] at this ⊢
      omega
    · rw [KeyMap.get?_cons_of_ne hk] at h
      have := ih h
      have hk2 : k ≠ name := fun e => hk e.symm
      simp only [withoutKey, List.filter_cons, ne_eq, hk2, not_false_eq_true, decide_true, if_true,
        List.length_cons] at this ⊢
      omega

theorem get?_withoutKey {m : KeyMap α} {name k : String} (h : k ≠ name) :
    KeyMap.get? (withoutKey name m) k = KeyMap.get? m k := by
  induction m with
  | nil => rfl
  | cons e m ih =>
    obtain ⟨k', v⟩ := e
    by_cases hk : k' = name
    · have hskip : withoutKey name ((k', v) :: m) = withoutKey name m := by simp [withoutKey, hk]
      rw [hskip, ih, KeyMap.get?_cons_of_ne (hk ▸ h)]
    · have hkeep : withoutKey name ((k', v) :: m) = (k', v) :: withoutKey name m := by simp [withoutKey, hk]
      rw [hkeep]
      by_cases hkk : k = k'
      · rw [hkk, KeyMap.get?_cons_self, KeyMap.get?_cons_self]
      · rw [KeyMap.get?_cons_of_ne hkk, KeyMap.get?_cons_of_ne hkk, ih]

/-- `pending` are the components not reached so far, `visited` the references already counted. -/
def flatten (pending : KeyMap Schema) (visited : List String) : List FlattenTask → List Part
  | [] => []
  | .keep s :: rest => .schema s :: flatten pending visited rest
  | .expand branch :: rest =>
    match branch.reference with
    | none => flatten pending visited (FlattenTask.ofTarget branch ++ rest)
    | some reference =>
      if visited.contains reference then flatten pending visited rest
      else
        match Document.schemaRefName? reference with
        | none => .dangling reference :: flatten pending (reference :: visited) rest
        | some name =>
          match h : KeyMap.get? pending name with
          | none => .dangling reference :: flatten pending (reference :: visited) rest
          | some target =>
            have := length_withoutKey_lt h
            flatten (withoutKey name pending) (reference :: visited) (FlattenTask.ofTarget target ++ rest)
termination_by tasks => (pending.length, FlattenTask.totalWeight tasks)
decreasing_by
  · exact Prod.Lex.right _ (FlattenTask.totalWeight_rest_lt _ _)
  · exact Prod.Lex.right _ (FlattenTask.totalWeight_ofTarget_lt branch rest)
  · exact Prod.Lex.right _ (FlattenTask.totalWeight_rest_lt _ _)
  · exact Prod.Lex.right _ (FlattenTask.totalWeight_rest_lt _ _)
  · exact Prod.Lex.right _ (FlattenTask.totalWeight_rest_lt _ _)
  · exact Prod.Lex.left _ _ this

/-- The contributors to a merge, in order. -/
def mergeParts (doc : Document) (s : Schema) (branches : List Schema) : List Part :=
  flatten doc.components.schemas [] (branches.map .expand) ++ if s.hasProperties then [.schema s] else []

namespace Resolve

/-- Fields for the parts from number `number` on, leaving out the keys already `seen`. -/
def partFields (resolve : Resolver) (s : Schema) (name : String) (number : Nat) (seen : List String) :
    List Part → Resolve (List Field × List Declaration)
  | [] => return ([], [])
  | .dangling reference :: rest => do
    report (.danglingBranch name reference)
    partFields resolve s name (number + 1) seen rest
  | .schema branch :: rest =>
    if branch.hasProperties then do
      let freshOnes := branch.propertyList.filter fun (key, _) => !seen.contains key
      let isRequired (key : String) := branch.required.contains key || s.required.contains key
      let (fields, nested) ← structFields resolve isRequired name .allOfProperty freshOnes
      let (more, moreNested) ← partFields resolve s name (number + 1) (freshOnes.map (·.1) ++ seen) rest
      return (fields ++ more, nested ++ moreNested)
    else do
      report (.emptyBranch name number)
      partFields resolve s name (number + 1) seen rest

def mergeAllOf (doc : Document) (resolve : Resolver) (s : Schema) (branches : List Schema) (name : String) :
    Resolve Resolution :=
  declaring name s do
    let (fields, nested) ← partFields resolve s name 1 [] (mergeParts doc s branches)
    return (.type ⟨name, .struct (sortedFields fields), s.documentation, false⟩, nested)

end Resolve

end ClientGen
