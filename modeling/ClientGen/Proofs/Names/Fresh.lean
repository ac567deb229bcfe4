import Mathlib
import ClientGen.Name.NameSet

/-
  ClientGen.Proofs.Names.Fresh — a name set hands no name out twice.

  A name that is taken is numbered, and the search for a number looks at one more number than
  there are names taken. Different numbers make different names, so they cannot all be taken
  (`claim_not_mem`). What is handed out is the name that was asked for, or that name numbered
  (`numbered_of_claim`), and names that are claimed one after the other differ (`Fresh.claim`).
  A number is only given when all numbers before it are taken (`firstFree_eq`), so what a name is
  given follows from the names given before it (`Answers`), from the first name of a list to the
  last (`claimAll_least`).
-/

namespace ClientGen

/-- The name itself, or a numbered form of it. -/
def Numbered (name chosen : String) : Prop := chosen = name ∨ ∃ n, chosen = NameSet.numbered name n

namespace NameSet

theorem numbered_injective (name : String) : Function.Injective (numbered name) := by
  intro n m h
  exact Nat.repr_injective (String.append_right_inj name |>.mp h)

theorem numbered_ne_self (name : String) (n : Nat) : numbered name n ≠ name := by
  intro h
  have hlength := congrArg String.length h
  have hpos : 0 < (toString n).length := by
    show 0 < (Nat.repr n).length
    rw [Nat.repr_eq_ofList_toDigits, String.length_ofList]
    exact Nat.length_toDigits_pos
  rw [numbered, String.length_append] at hlength
  omega

/-- Different numbers make different names, so no more of them are taken than there are names. -/
theorem length_of_numbered_mem {taken : List String} {name : String} {first last : Nat}
    (h : ∀ m, first ≤ m → m < last → numbered name m ∈ taken) : last - first ≤ taken.length := by
  have hnodup : ((List.range' first (last - first)).map (numbered name)).Nodup :=
    List.Nodup.map (numbered_injective name) (List.nodup_range' ..)
  have hsubset : (List.range' first (last - first)).map (numbered name) ⊆ taken := by
    intro x hx
    obtain ⟨m, hm, rfl⟩ := List.mem_map.mp hx
    rw [List.mem_range'_1] at hm
    exact h m hm.1 (by omega)
  have hlength := (List.subperm_of_subset hnodup hsubset).length_le
  rwa [List.length_map, List.length_range'] at hlength

/-- The numbers before the one that is found are taken. The one that is found is only taken when
    there is nothing left to try. -/
theorem firstFree_eq (taken : List String) (name : String) (n tries : Nat) :
    ∃ k, n ≤ k ∧ firstFree taken name n tries = numbered name k ∧ (∀ m, n ≤ m → m < k → numbered name m ∈ taken) ∧
      (numbered name k ∈ taken → k = n + tries) := by
  have hhere : ∀ m, n ≤ m → m < n → numbered name m ∈ taken := by
    intro m hn hm
    omega
  induction tries generalizing n with
  | zero => exact ⟨n, Nat.le_refl n, rfl, hhere, fun _ => rfl⟩
  | succ tries ih =>
    by_cases htaken : numbered name n ∈ taken
    · obtain ⟨k, hk, heq, hbelow, hlast⟩ := ih (n + 1) (by omega)
      refine ⟨k, by omega, ?_, ?_, ?_⟩
      · rw [firstFree, if_pos htaken, heq]
      · intro m hn hm
        by_cases hfirst : m = n
        · exact hfirst ▸ htaken
        · exact hbelow m (by omega) hm
      · intro hfound
        have := hlast hfound
        omega
    · exact ⟨n, Nat.le_refl n, if_neg htaken, hhere, fun hfound => absurd hfound htaken⟩

theorem firstFree_not_mem (taken : List String) (name : String) (n : Nat) :
    firstFree taken name n taken.length ∉ taken := by
  intro h
  obtain ⟨k, -, heq, hbelow, hlast⟩ := firstFree_eq taken name n taken.length
  rw [heq] at h
  have hk := hlast h
  have hall : ∀ m, n ≤ m → m < k + 1 → numbered name m ∈ taken := by
    intro m hn hm
    by_cases hfound : m = k
    · exact hfound ▸ h
    · exact hbelow m hn (by omega)
  have := length_of_numbered_mem hall
  omega

theorem claim_not_mem (s : NameSet) (name : String) : (s.claim name).1 ∉ s.taken := by
  show s.pick name ∉ s.taken
  unfold pick
  split
  · exact firstFree_not_mem s.taken name 2
  · assumption

theorem numbered_of_claim (s : NameSet) (name : String) : Numbered name (s.claim name).1 := by
  show Numbered name (s.pick name)
  unfold pick
  split
  · obtain ⟨n, -, hn, -, -⟩ := firstFree_eq s.taken name 2 s.taken.length
    exact .inr ⟨n, hn⟩
  · exact .inl rfl

theorem taken_claim (s : NameSet) (name : String) : (s.claim name).2.taken = (s.claim name).1 :: s.taken := rfl

/-- Names that differ from each other and from those taken. -/
def Fresh (s : NameSet) (names : List String) : Prop := names.Nodup ∧ ∀ name ∈ names, name ∉ s.taken

theorem fresh_nil (s : NameSet) : s.Fresh [] := ⟨List.nodup_nil, List.forall_mem_nil _⟩

/-- What is claimed is fresh, with what is claimed after it. -/
theorem Fresh.claim {s : NameSet} {name : String} {more : List String} (h : (s.claim name).2.Fresh more) :
    s.Fresh ((s.claim name).1 :: more) := by
  obtain ⟨hnodup, hnew⟩ := h
  rw [taken_claim] at hnew
  constructor
  · refine List.nodup_cons.mpr ⟨?_, hnodup⟩
    intro hin
    exact hnew _ hin List.mem_cons_self
  · refine List.forall_mem_cons.mpr ⟨s.claim_not_mem name, ?_⟩
    intro other hother htaken
    exact hnew other hother (List.mem_cons_of_mem _ htaken)

/-! ## The least number -/

/-- `n` is the least number from 2 on with which the name is not taken. -/
structure LeastNumber (taken : List String) (name : String) (n : Nat) : Prop where
  two_le : 2 ≤ n
  free : name ++ toString n ∉ taken
  taken_below : ∀ m, 2 ≤ m → m < n → name ++ toString m ∈ taken

/-- The name itself is taken beside its numbered forms below the least free one. -/
theorem LeastNumber.le_length {taken : List String} {name : String} {n : Nat} (h : LeastNumber taken name n)
    (hname : name ∈ taken) : n ≤ taken.length + 1 := by
  have hothers : ∀ m, 2 ≤ m → m < n → numbered name m ∈ taken.erase name := by
    intro m htwo hm
    exact (List.mem_erase_of_ne (numbered_ne_self name m)).mpr (h.taken_below m htwo hm)
  have hlength := length_of_numbered_mem hothers
  rw [List.length_erase_of_mem hname] at hlength
  have := List.length_pos_of_mem hname
  omega

/-- What is given for a name when the names `earlier` have been given before. -/
structure Answers (earlier : List String) (name chosen : String) : Prop where
  new : chosen ∉ earlier
  own_iff : chosen = name ↔ name ∉ earlier
  numbered : name ∈ earlier → ∃ n, LeastNumber earlier name n ∧ n ≤ earlier.length + 1 ∧ chosen = name ++ toString n

theorem claim_answers (s : NameSet) (name : String) : Answers s.taken name (s.claim name).1 := by
  have hnew := s.claim_not_mem name
  by_cases htaken : name ∈ s.taken
  · obtain ⟨n, htwo, heq, hbelow, -⟩ := firstFree_eq s.taken name 2 s.taken.length
    have hchosen : (s.claim name).1 = numbered name n := by
      show s.pick name = _
      rw [pick, if_pos htaken, heq]
    rw [hchosen] at hnew ⊢
    have hleast : LeastNumber s.taken name n := ⟨htwo, hnew, hbelow⟩
    exact ⟨hnew, iff_of_false (numbered_ne_self name n) (not_not_intro htaken),
      fun _ => ⟨n, hleast, hleast.le_length htaken, rfl⟩⟩
  · have hchosen : (s.claim name).1 = name := if_neg htaken
    exact ⟨hnew, iff_of_true hchosen htaken, fun hin => absurd hin htaken⟩

/-- Only which names were given counts, not in which order. -/
theorem Answers.perm {earlier earlier' : List String} {name chosen : String} (h : Answers earlier name chosen)
    (hperm : earlier.Perm earlier') : Answers earlier' name chosen := by
  obtain ⟨hnew, hown, hnumbered⟩ := h
  simp only [hperm.mem_iff] at hnew hown hnumbered
  refine ⟨hnew, hown, ?_⟩
  intro hname
  obtain ⟨n, ⟨htwo, hfree, hbelow⟩, hlength, hchosen⟩ := hnumbered hname
  simp only [hperm.mem_iff] at hfree hbelow
  exact ⟨n, ⟨htwo, hfree, hbelow⟩, hperm.length_eq ▸ hlength, hchosen⟩

theorem claimAll_fresh (s : NameSet) (names : List String) : s.Fresh (s.claimAll names).1 := by
  induction names generalizing s with
  | nil => exact s.fresh_nil
  | cons name rest ih => exact (ih (s.claim name).2).claim

theorem length_claimAll (s : NameSet) (names : List String) : (s.claimAll names).1.length = names.length := by
  induction names generalizing s with
  | nil => rfl
  | cons name rest ih => exact congrArg Nat.succ (ih (s.claim name).2)

theorem claimAll_answers {s : NameSet} {names : List String} {i : Nat} {name chosen : String}
    (hname : names[i]? = some name) (hchosen : (s.claimAll names).1[i]? = some chosen) :
    Answers ((s.claimAll names).1.take i ++ s.taken) name chosen := by
  induction names generalizing s i with
  | nil => cases hname
  | cons first rest ih =>
    have hcons : (s.claimAll (first :: rest)).1 = (s.claim first).1 :: ((s.claim first).2.claimAll rest).1 := rfl
    rw [hcons] at hchosen ⊢
    cases i with
    | zero =>
      cases hname
      cases hchosen
      exact s.claim_answers _
    | succ i =>
      have hlater := ih hname hchosen
      rw [taken_claim] at hlater
      exact hlater.perm List.perm_middle

/-- Names that are claimed in order from an empty set are all given a name, and no two the same one.
    A name is given as it is exactly when it was not given before, and otherwise with the least
    number from 2 on that makes it new, which is not greater than the count of the names given
    before and one. -/
theorem claimAll_least (names : List String) :
    (empty.claimAll names).1.length = names.length ∧ (empty.claimAll names).1.Nodup ∧
      ∀ i name chosen, names[i]? = some name → (empty.claimAll names).1[i]? = some chosen →
        Answers ((empty.claimAll names).1.take i) name chosen := by
  refine ⟨length_claimAll empty names, (claimAll_fresh empty names).1, ?_⟩
  intro i name chosen hname hchosen
  have h := claimAll_answers hname hchosen
  rwa [show empty.taken = [] from rfl, List.append_nil] at h

example : (empty.claimAll ["Pet", "Pet", "Pet", "Pet2"]).1 = ["Pet", "Pet2", "Pet3", "Pet22"] := by decide

end NameSet

end ClientGen
