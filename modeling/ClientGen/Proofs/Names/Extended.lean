import ClientGen.Proofs.Names.Letter
import ClientGen.Proofs.Names.Made

/-
  ClientGen.Proofs.Names.Extended — what is inside a schema has a longer name.

  The endings that names are passed on with begin with no small letter (`identifier_head`), and no
  rule for singulars takes anything but small letters away (`singularReversed_drops`). So a name
  that goes on behind another in this way (`Beneath`) does so however it is passed on, and a name
  that is its own singular stands in front of all names made from it (`NamedAfter.extends_root`).
  - A name never comes up again below a singular that differs from it
    (`not_namedAfter_singular`), nor below the one that the items of a payload are given
    (`not_namedAfter_items`).
-/

namespace ClientGen

namespace Unicode

/-- A run whose images are no small letters of ASCII. -/
def CaseRun.makesNoSmall (r : CaseRun) : Bool := 0x7A < r.start || r.start + (r.hi - r.lo) < 0x61

theorem isLower_iff {c : Char} : c.isLower = true ↔ 0x61 ≤ c.toNat ∧ c.toNat ≤ 0x7A := by
  simp [Char.isLower, UInt32.le_iff_toNat_le, ← Char.toNat_val]

theorem not_isLower_ofNat {n : Nat} (h : n < 0x61 ∨ 0x7A < n) : (Char.ofNat n).isLower = false := by
  rw [Bool.eq_false_iff, ne_eq, isLower_iff, Char.toNat_ofNat]
  split <;> omega

theorem CaseRun.not_isLower_image {r : CaseRun} (hr : r.makesNoSmall = true) {n m : Nat} (h : r.image? n = some m) :
    (Char.ofNat m).isLower = false := by
  simp only [makesNoSmall, Bool.or_eq_true, decide_eq_true_eq] at hr
  unfold image? at h
  split at h
  · rename_i hin
    simp only [Bool.and_eq_true, decide_eq_true_eq] at hin
    cases h
    exact not_isLower_ofNat (by omega)
  · cases h

/-- A character in capital form begins with no small letter. -/
theorem toUpper_head (c : Char) : ∃ d rest, toUpper c = d :: rest ∧ d.isLower = false := by
  have hruns : ∀ r ∈ upperRuns, r.makesNoSmall = true := List.all_eq_true.mp (by decide +kernel)
  have hexpansions : ∀ e ∈ upperExpansions, (e.2.head?.any fun n => !(Char.ofNat n).isLower) = true :=
    List.all_eq_true.mp (by decide +kernel)
  unfold toUpper
  split
  · exact ⟨c.toUpper, [], rfl, Char.isLower_toUpper_eq_false c⟩
  · rename_i hbeyond
    unfold mapCase
    split
    · rename_i codes hlookup
      obtain ⟨before, after, heq, -⟩ := List.lookup_eq_some_iff.mp hlookup
      have hhead := hexpansions (c.toNat, codes) (by simp [heq])
      cases codes with
      | nil => cases hhead
      | cons code more => exact ⟨Char.ofNat code, more.map Char.ofNat, rfl, by simpa using hhead⟩
    · refine ⟨_, [], rfl, ?_⟩
      cases hfound : upperRuns.findSome? (·.image? c.toNat) with
      | none =>
        rw [Option.map_none, Option.getD_none, Bool.eq_false_iff, ne_eq, isLower_iff]
        omega
      | some m =>
        obtain ⟨r, hr, himage⟩ := List.exists_of_findSome?_eq_some hfound
        exact r.not_isLower_image (hruns r hr) himage

end Unicode

open Unicode

namespace Name

/-! ## Endings -/

/-- A text that begins with something else than a small letter of ASCII. -/
def Begun (cs : List Char) : Prop := ∃ c rest, cs = c :: rest ∧ c.isLower = false

theorem Begun.append {cs : List Char} (h : Begun cs) (ds : List Char) : Begun (cs ++ ds) := by
  obtain ⟨c, rest, rfl, hc⟩ := h
  exact ⟨c, rest ++ ds, rfl, hc⟩

theorem flatMap_capitalize (words : List (List Char)) :
    words.flatMap capitalize = [] ∨ Begun (words.flatMap capitalize) := by
  induction words with
  | nil => exact .inl rfl
  | cons word rest ih =>
    cases word with
    | nil => exact ih
    | cons c more =>
      obtain ⟨d, ds, hupper, hd⟩ := toUpper_head c
      exact .inr ⟨d, ds ++ more ++ rest.flatMap capitalize, by simp [capitalize, hupper], hd⟩

theorem spelledChars_head (cs : List Char) : spelledChars cs = [] ∨ Begun (spelledChars cs) := by
  have hsign : (splitSignChars cs).1 = [] ∨ Begun (splitSignChars cs).1 := by
    unfold splitSignChars
    split
    · exact .inr ⟨'P', _, rfl, by decide⟩
    · exact .inr ⟨'M', _, rfl, by decide⟩
    · exact .inr ⟨'A', _, rfl, by decide⟩
    · exact .inl rfl
    · exact .inl rfl
  rw [spelledChars_eq]
  rcases hsign with hnone | hbegun
  · rw [hnone]
    exact flatMap_capitalize _
  · exact .inr (hbegun.append _)

theorem identifier_head (s : String) : Begun (identifier s).toList := by
  rw [identifier, String.toList_ofList, identifierChars]
  rcases spelledChars_head s.toList with hnone | ⟨c, rest, hspelled, hc⟩
  · rw [hnone]
    exact ⟨'V', _, rfl, by decide⟩
  · rw [hspelled]
    dsimp only
    split
    · exact ⟨'N', _, rfl, by decide⟩
    · exact ⟨c, rest, rfl, hc⟩

/-! ## Singulars -/

/-- The endings that a singular replaces, each with what stands for it. -/
def endings : List (String × String) := [("", ""), ("s", ""), ("es", ""), ("ies", "y")]

/-- A singular ends otherwise in one of these ways, and something is kept in front of the ending. -/
theorem singularReversed_replaces (cs : List Char) : ∃ ending ∈ endings, ∃ kept,
    cs = ending.1.toList.reverse ++ kept ∧ singularReversed cs = ending.2.toList.reverse ++ kept ∧
      (cs ≠ [] → kept ≠ []) := by
  have hkeep : ("", "") ∈ endings := by decide
  have hs : ("s", "") ∈ endings := by decide
  have hes : ("es", "") ∈ endings := by decide
  have hies : ("ies", "y") ∈ endings := by decide
  fun_cases singularReversed cs with
  | case1 c stem => exact ⟨_, hies, c :: stem, rfl, rfl, fun _ => List.cons_ne_nil _ _⟩
  | case2 stem => exact ⟨_, hes, _, rfl, rfl, fun _ => List.cons_ne_nil _ _⟩
  | case3 stem => exact ⟨_, hes, _, rfl, rfl, fun _ => List.cons_ne_nil _ _⟩
  | case4 stem => exact ⟨_, hes, _, rfl, rfl, fun _ => List.cons_ne_nil _ _⟩
  | case5 stem => exact ⟨_, hes, _, rfl, rfl, fun _ => List.cons_ne_nil _ _⟩
  | case6 stem => exact ⟨_, hes, _, rfl, rfl, fun _ => List.cons_ne_nil _ _⟩
  | case10 c stem => exact ⟨_, hs, c :: stem, rfl, rfl, fun _ => List.cons_ne_nil _ _⟩
  | _ => exact ⟨_, hkeep, _, rfl, rfl, id⟩

/-- All that a singular takes away are small letters. -/
theorem singularReversed_drops (cs : List Char) : ∃ dropped kept added,
    cs = dropped ++ kept ∧ singularReversed cs = added ++ kept ∧ ∀ d ∈ dropped, d.isLower = true := by
  have hsmall : ∀ ending ∈ endings, ∀ d ∈ ending.1.toList.reverse, d.isLower = true := by
    simp [endings]
  obtain ⟨ending, hending, kept, hcs, hsingular, -⟩ := singularReversed_replaces cs
  exact ⟨_, kept, _, hcs, hsingular, hsmall ending hending⟩

/-- What begins an ending stays in the singular, with all in front of it. -/
theorem singularChars_append (cs : List Char) {ending : List Char} (h : Begun ending) :
    ∃ ending', Begun ending' ∧ singularChars (cs ++ ending) = cs ++ ending' := by
  obtain ⟨c, rest, rfl, hc⟩ := h
  obtain ⟨dropped, kept, added, hreverse, hsingular, hsmall⟩ := singularReversed_drops (cs ++ c :: rest).reverse
  -- the beginning is no small letter, so it is kept
  have hkept : ∃ more, kept = more ++ c :: cs.reverse := by
    have heq : rest.reverse ++ c :: cs.reverse = dropped ++ kept := by simpa using hreverse
    rcases List.append_eq_append_iff.mp heq with ⟨more, rfl, hmore⟩ | ⟨more, -, hkept⟩
    · cases more with
      | nil => exact ⟨[], hmore.symm⟩
      | cons d more =>
        obtain ⟨rfl, -⟩ := List.cons.inj hmore
        have := hsmall c (by simp)
        rw [hc] at this
        cases this
    · exact ⟨more, hkept⟩
  obtain ⟨more, rfl⟩ := hkept
  refine ⟨c :: (added ++ more).reverse, ⟨c, _, rfl, hc⟩, ?_⟩
  rw [singularChars, hsingular]
  simp

end Name

/-! ## Names made from a name -/

open Name

/-- A name that goes on behind `root` with something else than a small letter. -/
def Beneath (root name : String) : Prop := ∃ ending, Begun ending ∧ name.toList = root.toList ++ ending

variable {root name : String}

theorem beneath_append (root : String) {ending : String} (h : Begun ending.toList) : Beneath root (root ++ ending) :=
  ⟨ending.toList, h, String.toList_append⟩

theorem Beneath.append (h : Beneath root name) (ending : String) : Beneath root (name ++ ending) := by
  obtain ⟨more, hmore, heq⟩ := h
  exact ⟨more ++ ending.toList, hmore.append _, by rw [String.toList_append, heq, List.append_assoc]⟩

/-- The singular takes nothing of the name in front. -/
theorem Beneath.singular (h : Beneath root name) : Beneath root (Name.singular name) := by
  obtain ⟨ending, hending, heq⟩ := h
  obtain ⟨ending', hending', hsingular⟩ := singularChars_append root.toList hending
  exact ⟨ending', hending', by rw [Name.singular, String.toList_ofList, heq, hsingular]⟩

theorem Beneath.ne (h : Beneath root name) : name ≠ root := by
  rintro rfl
  obtain ⟨ending, ⟨c, rest, rfl, -⟩, heq⟩ := h
  simp at heq

theorem begun_option (number : Nat) : Begun ("Option" ++ toString number).toList := by
  rw [String.toList_append]
  exact .append ⟨'O', _, rfl, by decide⟩ _

theorem NamedAfter.extends_root (hroot : Name.singular root = root) (h : NamedAfter root name) :
    name = root ∨ Beneath root name := by
  have happend {name ending : String} (hending : Begun ending.toList) (h : name = root ∨ Beneath root name) :
      name ++ ending = root ∨ Beneath root (name ++ ending) := by
    right
    rcases h with rfl | h
    · exact beneath_append name hending
    · exact h.append ending
  induction h with
  | self => exact .inl rfl
  | property key _ ih => exact happend (identifier_head key) ih
  | option number _ ih =>
    rw [String.append_assoc]
    exact happend (begun_option number) ih
  | value _ ih => exact happend ⟨'V', _, rfl, by decide⟩ ih
  | items _ ih => exact happend ⟨'I', _, rfl, by decide⟩ ih
  | singular _ ih =>
    rcases ih with rfl | h
    · exact .inl hroot
    · exact .inr h.singular

/-- A name never comes up again below a singular that differs from it. -/
theorem not_namedAfter_singular {name : String} (hne : singular name ≠ name) : ¬ NamedAfter (singular name) name := by
  intro h
  rcases h.extends_root (singular_singular name) with heq | hbeneath
  · exact hne heq.symm
  · exact hbeneath.singular.ne rfl

/-- The items of a payload have a longer name than the payload. -/
theorem not_namedAfter_items (name : String) : ¬ NamedAfter (singular (name ++ "Items")) name := by
  intro h
  have hitems : Begun "Items".toList := ⟨'I', _, rfl, by decide⟩
  obtain ⟨ending, ⟨c, rest, rfl, -⟩, hsingular⟩ := singularChars_append name.toList hitems
  have hroot : (singular (name ++ "Items")).toList = name.toList ++ c :: rest := by
    rw [singular, String.toList_ofList, String.toList_append, hsingular]
  have hlength : (singular (name ++ "Items")).toList.length ≤ name.toList.length := by
    rcases h.extends_root (singular_singular _) with heq | ⟨more, -, heq⟩
    · rw [← heq]
    · rw [heq, List.length_append]
      omega
  rw [hroot, List.length_append, List.length_cons] at hlength
  omega

end ClientGen
