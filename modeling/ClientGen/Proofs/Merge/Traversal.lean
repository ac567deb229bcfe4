import ClientGen.Proofs.Merge.Reached

/-
  ClientGen.Proofs.Merge.Traversal — a flattening, one branch at a time.

  `flatten` keeps a list of what is left to do. Read as a traversal, every branch gives its own parts
  and passes the references visited so far on to the next one (`Flattens`). What is pending never
  matters beyond them, so every flattening is such a traversal (`flattens_flatten`).
-/

namespace ClientGen

/-- Starting with the references `visited` the tasks give these parts, and the references visited
    afterwards are the last ones. -/
inductive Flattens (doc : Document) : List String → List FlattenTask → List Part → List String → Prop
  | done {visited : List String} : Flattens doc visited [] [] visited
  | keep {visited visited' : List String} {s : Schema} {rest : List FlattenTask} {parts : List Part} :
      Flattens doc visited rest parts visited' → Flattens doc visited (.keep s :: rest) (.schema s :: parts) visited'
  | inline {visited between visited' : List String} {branch : Schema} {rest : List FlattenTask}
      {own more : List Part} : branch.reference = none →
      Flattens doc visited (FlattenTask.ofTarget branch) own between → Flattens doc between rest more visited' →
      Flattens doc visited (.expand branch :: rest) (own ++ more) visited'
  | again {visited visited' : List String} {branch : Schema} {reference : String} {rest : List FlattenTask}
      {parts : List Part} : branch.reference = some reference → reference ∈ visited →
      Flattens doc visited rest parts visited' → Flattens doc visited (.expand branch :: rest) parts visited'
  | dangling {visited visited' : List String} {branch : Schema} {reference : String} {rest : List FlattenTask}
      {parts : List Part} : branch.reference = some reference → reference ∉ visited →
      doc.schemaByRef? reference = none → Flattens doc (reference :: visited) rest parts visited' →
      Flattens doc visited (.expand branch :: rest) (.dangling reference :: parts) visited'
  | component {visited between visited' : List String} {branch target : Schema} {reference : String}
      {rest : List FlattenTask} {own more : List Part} : branch.reference = some reference → reference ∉ visited →
      doc.schemaByRef? reference = some target →
      Flattens doc (reference :: visited) (FlattenTask.ofTarget target) own between →
      Flattens doc between rest more visited' → Flattens doc visited (.expand branch :: rest) (own ++ more) visited'

namespace Flattens

variable {doc : Document} {visited visited' : List String} {tasks more : List FlattenTask} {parts : List Part}

/-- Tasks in front are done first. -/
theorem split (h : Flattens doc visited (tasks ++ more) parts visited') :
    ∃ own between rest, Flattens doc visited tasks own between ∧ Flattens doc between more rest visited' ∧
      parts = own ++ rest := by
  induction tasks generalizing visited parts with
  | nil => exact ⟨[], visited, parts, .done, h, rfl⟩
  | cons task tasks ih =>
    cases h with
    | keep h =>
      obtain ⟨own, between, rest, hown, hrest, rfl⟩ := ih h
      exact ⟨_, between, rest, .keep hown, hrest, rfl⟩
    | inline href hbranch h =>
      obtain ⟨own, between, rest, hown, hrest, rfl⟩ := ih h
      exact ⟨_, between, rest, .inline href hbranch hown, hrest, (List.append_assoc _ _ _).symm⟩
    | again href hvisited h =>
      obtain ⟨own, between, rest, hown, hrest, rfl⟩ := ih h
      exact ⟨_, between, rest, .again href hvisited hown, hrest, rfl⟩
    | dangling href hvisited hmissing h =>
      obtain ⟨own, between, rest, hown, hrest, rfl⟩ := ih h
      exact ⟨_, between, rest, .dangling href hvisited hmissing hown, hrest, rfl⟩
    | component href hvisited htarget hbranch h =>
      obtain ⟨own, between, rest, hown, hrest, rfl⟩ := ih h
      exact ⟨_, between, rest, .component href hvisited htarget hbranch hown, hrest, (List.append_assoc _ _ _).symm⟩

theorem append {own rest : List Part} {between : List String} (h : Flattens doc visited tasks own between)
    (hmore : Flattens doc between more rest visited') : Flattens doc visited (tasks ++ more) (own ++ rest) visited' := by
  induction h with
  | done => exact hmore
  | keep _ ih => exact .keep (ih hmore)
  | inline href hbranch _ _ ih =>
    rw [List.append_assoc]
    exact .inline href hbranch (ih hmore)
  | again href hvisited _ ih => exact .again href hvisited (ih hmore)
  | dangling href hvisited hmissing _ ih => exact .dangling href hvisited hmissing (ih hmore)
  | component href hvisited htarget hbranch _ _ ih =>
    rw [List.append_assoc]
    exact .component href hvisited htarget hbranch (ih hmore)

/-- A traversal goes one way only. -/
theorem unique {parts' : List Part} {last : List String} (h : Flattens doc visited tasks parts visited')
    (h' : Flattens doc visited tasks parts' last) : parts = parts' ∧ visited' = last := by
  induction h generalizing parts' last with
  | done => cases h'; exact ⟨rfl, rfl⟩
  | keep _ ih =>
    cases h' with
    | keep h' =>
      obtain ⟨rfl, rfl⟩ := ih h'
      exact ⟨rfl, rfl⟩
  | inline href _ _ ihown ihmore =>
    cases h' with
    | inline _ hown hmore =>
      obtain ⟨rfl, rfl⟩ := ihown hown
      obtain ⟨rfl, rfl⟩ := ihmore hmore
      exact ⟨rfl, rfl⟩
    | _ => simp_all
  | again href hvisited _ ih =>
    cases h' with
    | again _ _ h' => exact ih h'
    | _ => simp_all
  | dangling href hvisited hmissing _ ih =>
    cases h' with
    | dangling href' _ _ h' =>
      obtain rfl := Option.some.inj (href.symm.trans href')
      obtain ⟨rfl, rfl⟩ := ih h'
      exact ⟨rfl, rfl⟩
    | _ => simp_all
  | component href hvisited htarget _ _ ihown ihmore =>
    cases h' with
    | component href' _ htarget' hown hmore =>
      obtain rfl := Option.some.inj (href.symm.trans href')
      obtain rfl := Option.some.inj (htarget.symm.trans htarget')
      obtain ⟨rfl, rfl⟩ := ihown hown
      obtain ⟨rfl, rfl⟩ := ihmore hmore
      exact ⟨rfl, rfl⟩
    | _ => simp_all

end Flattens

theorem flattens_flatten {doc : Document} {pending : KeyMap Schema} {visited : List String}
    {tasks : List FlattenTask} (hpending : Pending doc pending visited) :
    ∃ visited', Flattens doc visited tasks (flatten pending visited tasks) visited' := by
  fun_induction flatten pending visited tasks with
  | case1 pending visited => exact ⟨visited, .done⟩
  | case2 pending visited sch rest ih =>
    obtain ⟨visited', h⟩ := ih hpending
    exact ⟨visited', .keep h⟩
  | case3 pending visited branch rest href ih =>
    obtain ⟨visited', h⟩ := ih hpending
    obtain ⟨own, between, more, hown, hmore, heq⟩ := h.split
    exact ⟨visited', heq ▸ .inline href hown hmore⟩
  | case4 pending visited branch rest reference href hseen ih =>
    obtain ⟨visited', h⟩ := ih hpending
    exact ⟨visited', .again href (by simpa using hseen) h⟩
  | case5 pending visited branch rest reference href hseen hname ih =>
    have hmissing : doc.schemaByRef? reference = none := by rw [Document.schemaByRef?, hname, Option.bind_none]
    obtain ⟨visited', h⟩ := ih hpending.visit
    exact ⟨visited', .dangling href (by simpa using hseen) hmissing h⟩
  | case6 pending visited branch rest reference href hseen name hname hget ih =>
    have hmissing := (hpending.target hseen hname).symm.trans hget
    obtain ⟨visited', h⟩ := ih hpending.visit
    exact ⟨visited', .dangling href (by simpa using hseen) hmissing h⟩
  | case7 pending visited branch rest reference href hseen name hname target hget hlt ih =>
    have htarget := (hpending.target hseen hname).symm.trans hget
    obtain ⟨visited', h⟩ := ih (hpending.take hname)
    obtain ⟨own, between, more, hown, hmore, heq⟩ := h.split
    exact ⟨visited', heq ▸ .component href (by simpa using hseen) htarget hown hmore⟩

end ClientGen
