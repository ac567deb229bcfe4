import ClientGen.Resolve.Basic

/-
  ClientGen.Proofs.Merge.First — the first element of every key.

  - What is kept has keys of its own, none of them seen before (`pairwise_firstByKeyFrom`), and
    nothing with its key stands before it (`exists_split_of_mem_firstByKeyFrom`).
  - Leaving out elements whose keys were seen changes nothing (`firstByKeyFrom_filter`), nor does
    keeping the first of a finer key before (`firstByKeyFrom_firstByKeyFrom`).
  - So the fields of a struct have strictly increasing names (`sortedFields_increasing`).
-/

namespace ClientGen

variable {α β κ ι : Type} [BEq κ] [LawfulBEq κ] [BEq ι] [LawfulBEq ι] {key : α → κ} {seen : List κ} {items : List α}

theorem firstByKeyFrom_cons_of_mem {a : α} (h : key a ∈ seen) :
    firstByKeyFrom key seen (a :: items) = firstByKeyFrom key seen items := by
  rw [firstByKeyFrom, if_pos (List.contains_iff_mem.mpr h)]

theorem firstByKeyFrom_cons_of_not_mem {a : α} (h : key a ∉ seen) :
    firstByKeyFrom key seen (a :: items) = a :: firstByKeyFrom key (key a :: seen) items := by
  rw [firstByKeyFrom, if_neg (mt List.contains_iff_mem.mp h)]

/-! ## What is kept -/

omit [LawfulBEq κ] in
theorem mem_of_mem_firstByKeyFrom {a : α} (h : a ∈ firstByKeyFrom key seen items) : a ∈ items := by
  induction items generalizing seen with
  | nil => exact h
  | cons b rest ih =>
    rw [firstByKeyFrom] at h
    split at h
    · exact List.mem_cons_of_mem b (ih h)
    · rcases List.mem_cons.mp h with rfl | h
      · exact List.mem_cons_self
      · exact List.mem_cons_of_mem b (ih h)

theorem mem_keys_firstByKeyFrom {k : κ} :
    k ∈ (firstByKeyFrom key seen items).map key ↔ k ∉ seen ∧ k ∈ items.map key := by
  induction items generalizing seen with
  | nil => simp [firstByKeyFrom]
  | cons a rest ih =>
    by_cases hseen : key a ∈ seen
    · rw [firstByKeyFrom_cons_of_mem hseen, ih, List.map_cons, List.mem_cons]
      grind
    · rw [firstByKeyFrom_cons_of_not_mem hseen, List.map_cons, List.map_cons, List.mem_cons, List.mem_cons, ih,
        List.mem_cons]
      grind

theorem firstByKeyFrom_id_eq_eraseDups {seen items : List κ} :
    firstByKeyFrom id seen items = (items.filter (!seen.contains ·)).eraseDups := by
  induction items generalizing seen with
  | nil => rfl
  | cons k rest ih =>
    by_cases hseen : k ∈ seen
    · rw [firstByKeyFrom_cons_of_mem hseen, ih, List.filter_cons_of_neg (by simpa using hseen)]
    · have hmore : rest.filter (!(k :: seen).contains ·) = (rest.filter (!seen.contains ·)).filter (!· == k) := by
        simp only [List.filter_filter, List.contains_cons, Bool.not_or]
      rw [firstByKeyFrom_cons_of_not_mem hseen, List.filter_cons_of_pos (by simpa using hseen), List.eraseDups_cons, id, ih,
        hmore]

theorem firstByKey_id_eq_eraseDups {items : List κ} : firstByKey id items = items.eraseDups := by
  rw [firstByKey, firstByKeyFrom_id_eq_eraseDups]
  congr 1
  exact List.filter_eq_self.mpr fun _ _ => rfl

/-- Of keys that stand for themselves every one is kept. -/
theorem mem_firstByKey_id {items : List κ} {k : κ} : k ∈ firstByKey id items ↔ k ∈ items := by
  rw [firstByKey_id_eq_eraseDups, List.mem_eraseDups]

theorem pairwise_firstByKeyFrom : (firstByKeyFrom key seen items).Pairwise (key · ≠ key ·) := by
  induction items generalizing seen with
  | nil => exact .nil
  | cons a rest ih =>
    by_cases hseen : key a ∈ seen
    · rw [firstByKeyFrom_cons_of_mem hseen]
      exact ih
    · rw [firstByKeyFrom_cons_of_not_mem hseen]
      refine List.pairwise_cons.mpr ⟨fun b hb he => ?_, ih⟩
      exact (mem_keys_firstByKeyFrom.mp (List.mem_map_of_mem hb)).1 (he ▸ List.mem_cons_self)

theorem exists_split_of_mem_firstByKeyFrom {a : α} (h : a ∈ firstByKeyFrom key seen items) :
    ∃ front back, items = front ++ a :: back ∧ ∀ b ∈ front, key b ≠ key a := by
  induction items generalizing seen with
  | nil => cases h
  | cons b rest ih =>
    -- Whatever stands before `a` has its key among those seen by then, and `a` has not.
    have hnext {seen : List κ} (h : a ∈ firstByKeyFrom key seen rest) (hb : key b ∈ seen) :
        ∃ front back, b :: rest = front ++ a :: back ∧ ∀ c ∈ front, key c ≠ key a := by
      obtain ⟨front, back, rfl, hfront⟩ := ih h
      have hfree := (mem_keys_firstByKeyFrom.mp (List.mem_map_of_mem h)).1
      exact ⟨b :: front, back, rfl, List.forall_mem_cons.mpr ⟨fun he => hfree (he ▸ hb), hfront⟩⟩
    by_cases hseen : key b ∈ seen
    · rw [firstByKeyFrom_cons_of_mem hseen] at h
      exact hnext h hseen
    · rw [firstByKeyFrom_cons_of_not_mem hseen] at h
      rcases List.mem_cons.mp h with rfl | h
      · exact ⟨[], rest, rfl, by simp⟩
      · exact hnext h List.mem_cons_self

/-! ## What makes no difference -/

theorem firstByKeyFrom_congr {seen' : List κ} (h : ∀ k, k ∈ seen ↔ k ∈ seen') :
    firstByKeyFrom key seen items = firstByKeyFrom key seen' items := by
  induction items generalizing seen seen' with
  | nil => rfl
  | cons a rest ih =>
    by_cases hseen : key a ∈ seen
    · rw [firstByKeyFrom_cons_of_mem hseen, firstByKeyFrom_cons_of_mem ((h _).mp hseen), ih h]
    · have hcons : ∀ k, k ∈ key a :: seen ↔ k ∈ key a :: seen' := fun k => by simp [h]
      rw [firstByKeyFrom_cons_of_not_mem hseen, firstByKeyFrom_cons_of_not_mem (mt (h _).mpr hseen), ih hcons]

theorem firstByKeyFrom_append (front back : List α) :
    firstByKeyFrom key seen (front ++ back) =
      firstByKeyFrom key seen front ++ firstByKeyFrom key (front.map key ++ seen) back := by
  induction front generalizing seen with
  | nil => rfl
  | cons a front ih =>
    rw [List.cons_append]
    by_cases hseen : key a ∈ seen
    · have hsame : ∀ k, k ∈ front.map key ++ seen ↔ k ∈ (a :: front).map key ++ seen := fun k => by
        rw [List.map_cons, List.cons_append, List.mem_cons, List.mem_append]
        grind
      rw [firstByKeyFrom_cons_of_mem hseen, firstByKeyFrom_cons_of_mem hseen, ih, firstByKeyFrom_congr hsame]
    · have hsame : ∀ k, k ∈ front.map key ++ key a :: seen ↔ k ∈ (a :: front).map key ++ seen := fun k => by
        rw [List.map_cons, List.cons_append, List.mem_cons, List.mem_append, List.mem_append, List.mem_cons]
        exact or_left_comm
      rw [firstByKeyFrom_cons_of_not_mem hseen, firstByKeyFrom_cons_of_not_mem hseen, ih, firstByKeyFrom_congr hsame,
        List.cons_append]

omit [LawfulBEq κ] in
theorem firstByKeyFrom_map (key : β → κ) (f : α → β) :
    firstByKeyFrom key seen (items.map f) = (firstByKeyFrom (key ∘ f) seen items).map f := by
  induction items generalizing seen with
  | nil => rfl
  | cons a rest ih =>
    simp only [List.map_cons, firstByKeyFrom, Function.comp_apply]
    split
    · exact ih
    · rw [ih, List.map_cons]

theorem firstByKeyFrom_filter {keep : α → Bool} (h : ∀ a ∈ items, keep a = false → key a ∈ seen) :
    firstByKeyFrom key seen (items.filter keep) = firstByKeyFrom key seen items := by
  induction items generalizing seen with
  | nil => rfl
  | cons a rest ih =>
    obtain ⟨ha, hrest⟩ := List.forall_mem_cons.mp h
    by_cases hseen : key a ∈ seen
    · rw [firstByKeyFrom_cons_of_mem hseen, ← ih hrest]
      cases hk : keep a with
      | false => rw [List.filter_cons_of_neg (by simp [hk])]
      | true => rw [List.filter_cons_of_pos hk, firstByKeyFrom_cons_of_mem hseen]
    · have hk : keep a = true := by simpa using mt ha hseen
      have hmore : ∀ b ∈ rest, keep b = false → key b ∈ key a :: seen := fun b hb hkb =>
        List.mem_cons_of_mem _ (hrest b hb hkb)
      rw [List.filter_cons_of_pos hk, firstByKeyFrom_cons_of_not_mem hseen, firstByKeyFrom_cons_of_not_mem hseen, ih hmore]

theorem firstByKeyFrom_of_distinct (h : items.Pairwise (key · ≠ key ·)) (hnew : ∀ a ∈ items, key a ∉ seen) :
    firstByKeyFrom key seen items = items := by
  induction items generalizing seen with
  | nil => rfl
  | cons a rest ih =>
    obtain ⟨hfirst, hrest⟩ := List.pairwise_cons.mp h
    obtain ⟨ha, hnew⟩ := List.forall_mem_cons.mp hnew
    have hmore : ∀ b ∈ rest, key b ∉ key a :: seen := fun b hb => by
      simpa using ⟨Ne.symm (hfirst b hb), hnew b hb⟩
    rw [firstByKeyFrom_cons_of_not_mem ha, ih hrest hmore]

/-- A key that decides another may be used first. -/
theorem firstByKeyFrom_firstByKeyFrom (coarse : κ → ι) {seenCoarse : List ι} (h : ∀ k ∈ seen, coarse k ∈ seenCoarse) :
    firstByKeyFrom (coarse ∘ key) seenCoarse (firstByKeyFrom key seen items) =
      firstByKeyFrom (coarse ∘ key) seenCoarse items := by
  induction items generalizing seen seenCoarse with
  | nil => rfl
  | cons a rest ih =>
    by_cases hcoarse : (coarse ∘ key) a ∈ seenCoarse
    · have hmore : ∀ k ∈ key a :: seen, coarse k ∈ seenCoarse := List.forall_mem_cons.mpr ⟨hcoarse, h⟩
      by_cases hseen : key a ∈ seen
      · rw [firstByKeyFrom_cons_of_mem hseen, firstByKeyFrom_cons_of_mem hcoarse, ih h]
      · rw [firstByKeyFrom_cons_of_not_mem hseen, firstByKeyFrom_cons_of_mem hcoarse,
          firstByKeyFrom_cons_of_mem hcoarse, ih hmore]
    · have hseen : key a ∉ seen := fun hseen => hcoarse (h _ hseen)
      have hmore : ∀ k ∈ key a :: seen, coarse k ∈ coarse (key a) :: seenCoarse :=
        List.forall_mem_cons.mpr ⟨List.mem_cons_self, fun k hk => List.mem_cons_of_mem _ (h k hk)⟩
      rw [firstByKeyFrom_cons_of_not_mem hseen, firstByKeyFrom_cons_of_not_mem hcoarse,
        firstByKeyFrom_cons_of_not_mem hcoarse]
      exact congrArg _ (ih hmore)

/-! ## Sorted fields -/

theorem sortedFields_perm (fields : List Field) :
    (Resolve.sortedFields fields).Perm (firstByKey (·.name) fields) := sortBy_perm _ _

theorem sortedFields_increasing (fields : List Field) :
    (Resolve.sortedFields fields).Pairwise (·.name < ·.name) := sortByText_increasing pairwise_firstByKeyFrom

end ClientGen
