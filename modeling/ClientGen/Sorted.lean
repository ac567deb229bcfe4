/-
  ClientGen.Sorted — sorting that keeps equal elements in order.
-/

namespace ClientGen

variable {α : Type u}

/-- Put an element in front of the first one that it may precede. -/
def insertSorted (le : α → α → Bool) (a : α) : List α → List α
  | [] => [a]
  | b :: rest => if le a b then a :: b :: rest else b :: insertSorted le a rest

def sortBy (le : α → α → Bool) : List α → List α
  | [] => []
  | a :: rest => insertSorted le a (sortBy le rest)

/-- Sort by a text, in the order of code points. -/
def sortByText (key : α → String) (items : List α) : List α := sortBy (fun a b => !(key b < key a)) items

theorem insertSorted_perm (le : α → α → Bool) (a : α) (items : List α) :
    (insertSorted le a items).Perm (a :: items) := by
  induction items with
  | nil => exact .refl _
  | cons b rest ih =>
    simp only [insertSorted]
    split
    · exact .refl _
    · exact (ih.cons b).trans (.swap a b rest)

theorem sortBy_perm (le : α → α → Bool) (items : List α) : (sortBy le items).Perm items := by
  induction items with
  | nil => exact .refl _
  | cons a rest ih => exact (insertSorted_perm le a _).trans (ih.cons a)

theorem insertSorted_map {β : Type v} (f : β → α) (le : α → α → Bool) (b : β) (items : List β) :
    insertSorted le (f b) (items.map f) = (insertSorted (fun x y => le (f x) (f y)) b items).map f := by
  induction items with
  | nil => rfl
  | cons c rest ih =>
    simp only [List.map_cons, insertSorted]
    split
    · rfl
    · rw [ih, List.map_cons]

/-- Sorting what elements stand for sorts the elements. -/
theorem sortBy_map {β : Type v} (f : β → α) (le : α → α → Bool) (items : List β) :
    sortBy le (items.map f) = (sortBy (fun x y => le (f x) (f y)) items).map f := by
  induction items with
  | nil => rfl
  | cons b rest ih => rw [List.map_cons, sortBy, ih, insertSorted_map, sortBy]

/-- `a` may stand before `b`, and if they tie it did so from the start. -/
def Precedes (le : α → α → Bool) (earlier : α → α → Prop) (a b : α) : Prop :=
  le a b = true ∧ (le b a = true → earlier a b)

section Stable

variable {le : α → α → Bool} {earlier : α → α → Prop}

theorem insertSorted_stable (total : ∀ a b, le a b = true ∨ le b a = true)
    (trans : ∀ a b c, le a b = true → le b c = true → le a c = true) {a : α} {items : List α}
    (ha : ∀ b ∈ items, earlier a b) (h : items.Pairwise (Precedes le earlier)) :
    (insertSorted le a items).Pairwise (Precedes le earlier) := by
  induction items with
  | nil => exact List.pairwise_singleton _ _
  | cons b rest ih =>
    obtain ⟨hb, hrest⟩ := List.pairwise_cons.mp h
    simp only [insertSorted]
    split
    · rename_i hle
      refine List.pairwise_cons.mpr ⟨fun c hc => ⟨?_, fun _ => ha c hc⟩, h⟩
      rcases List.mem_cons.mp hc with rfl | hc
      · exact hle
      · exact trans a b c hle (hb c hc).1
    · rename_i hle
      refine List.pairwise_cons.mpr ⟨fun c hc => ?_, ih (fun c hc => ha c (List.mem_cons_of_mem b hc)) hrest⟩
      rcases List.mem_cons.mp ((insertSorted_perm le a rest).mem_iff.mp hc) with rfl | hc
      · exact ⟨(total b c).resolve_right hle, fun hle' => absurd hle' hle⟩
      · exact hb c hc

/-- Sorting orders the elements and keeps the order of those that tie. -/
theorem sortBy_stable (total : ∀ a b, le a b = true ∨ le b a = true)
    (trans : ∀ a b c, le a b = true → le b c = true → le a c = true) {items : List α} (h : items.Pairwise earlier) :
    (sortBy le items).Pairwise (Precedes le earlier) := by
  induction items with
  | nil => exact .nil
  | cons a rest ih =>
    obtain ⟨ha, hrest⟩ := List.pairwise_cons.mp h
    exact insertSorted_stable total trans (fun b hb => ha b ((sortBy_perm le rest).mem_iff.mp hb)) (ih hrest)

end Stable

/-- Sorting by texts that are all different orders them strictly. -/
theorem sortByText_increasing {key : α → String} {items : List α} (h : items.Pairwise (key · ≠ key ·)) :
    (sortByText key items).Pairwise (key · < key ·) := by
  have htotal : ∀ a b : α, (!decide (key b < key a)) = true ∨ (!decide (key a < key b)) = true := fun a b => by
    simp only [Bool.not_eq_true', decide_eq_false_iff_not, String.not_lt]
    exact String.le_total (key a) (key b)
  have htrans : ∀ a b c : α, (!decide (key b < key a)) = true → (!decide (key c < key b)) = true →
      (!decide (key c < key a)) = true := fun a b c hab hbc => by
    simp only [Bool.not_eq_true', decide_eq_false_iff_not, String.not_lt] at *
    exact String.le_trans hab hbc
  refine List.Pairwise.imp (fun {a b} hab => ?_) (sortBy_stable htotal htrans h)
  obtain ⟨hle, hne⟩ := hab
  simp only [Bool.not_eq_true', decide_eq_false_iff_not, String.not_lt] at hle hne
  refine String.not_le.mp fun hge => ?_
  exact hne hge (String.le_antisymm hle hge)

end ClientGen
