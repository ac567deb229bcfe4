import ClientGen.Proofs.Alias.Chain

/-
  ClientGen.Proofs.Alias.Scalar — the scalar that a named type wraps.

  A registry is built by claims and records. While no name is recorded twice, an entry has a scalar
  and a target only when it is an alias of that scalar (`Coherent`), so a name with a scalar has no
  name behind it on its chain. Following a chain of names to the first scalar therefore finds the
  scalar at the end of the chain (`followScalar_eq_some_iff`), and the names up to it are different
  names of the registry, so its bound, one less than that for types, cuts nothing off either.
  - `alias_chains` puts both walks together: they go to the end of one and the same chain.
-/

namespace ClientGen

/-- An entry with a scalar is that of an alias of the scalar, or of no alias. -/
structure RegistryEntry.Coherent (entry : RegistryEntry) : Prop where
  scalar_of_alias : ∀ k, entry.aliasOf = some (.scalar k) → entry.scalar = some k
  alias_of_scalar : ∀ k t, entry.scalar = some k → entry.aliasOf = some t → t = .scalar k

def RegistryEntry.Blank (entry : RegistryEntry) : Prop := entry.scalar = none ∧ entry.aliasOf = none

theorem RegistryEntry.Blank.coherent {entry : RegistryEntry} (h : entry.Blank) : entry.Coherent := by
  constructor
  · intro k halias
    rw [h.2] at halias
    cases halias
  · intro k t hscalar _
    rw [h.1] at hscalar
    cases hscalar

namespace Registry

variable {r : Registry} {name : String} {k : Scalar} {t e : TypeRef} {names : List String} {d : Declaration}
  {entry : RegistryEntry} {steps : Nat}

/-! ## Registries built by claims and records -/

/-- What is done to a registry. -/
inductive Change where
  | claim (name : String) (origin : Option Schema)
  | record (d : Declaration)

def Change.apply (r : Registry) : Change → Registry
  | .claim name origin => (r.claim name origin).2
  | .record d => r.record d

/-- The name that a change records. A name that nobody claimed has no entry to record in. -/
def Change.recorded? (r : Registry) : Change → Option String
  | .claim _ _ => none
  | .record d => if r.contains d.name then some d.name else none

/-- The registry after changes, made one after the other. -/
def after (r : Registry) : List Change → Registry
  | [] => r
  | c :: rest => after (c.apply r) rest

/-- The names that the changes record, each as often as it is recorded. -/
def recordedBy (r : Registry) : List Change → List String
  | [] => []
  | c :: rest => (c.recorded? r).toList ++ recordedBy (c.apply r) rest

/-- All entries are coherent, and only those of `names` have been recorded in. -/
structure Tracked (r : Registry) (names : List String) : Prop where
  coherent : ∀ {name entry}, KeyMap.get? r name = some entry → entry.Coherent
  blank : ∀ {name entry}, KeyMap.get? r name = some entry → name ∉ names → entry.Blank

/-- The first declaration that is recorded in an entry. -/
theorem coherent_recorded (h : entry.Blank) (d : Declaration) : (recorded d entry).Coherent := by
  unfold recorded
  split
  · constructor
    · intro k halias
      rw [h.2] at halias
      cases halias
    · intro k t _ halias
      rw [h.2] at halias
      cases halias
  · constructor
    · rintro k ⟨⟩
      rfl
    · rintro k t ⟨⟩ ⟨⟩
      rfl
  · rename_i hother
    constructor
    · rintro k ⟨⟩
      exact (hother k rfl).elim
    · intro k t hnone _
      rw [h.1] at hnone
      cases hnone
  · exact h.coherent

theorem get?_claim {claimed : String} {origin : Option Schema}
    (h : KeyMap.get? (r.claim claimed origin).2 name = some entry) :
    KeyMap.get? r name = some entry ∨ entry.Blank := by
  unfold claim at h
  split at h
  · by_cases hname : name = claimed
    · subst hname
      rw [KeyMap.get?_insert_self, Option.some.injEq] at h
      exact .inr (h ▸ ⟨rfl, rfl⟩)
    · rw [KeyMap.get?_insert_of_ne hname] at h
      exact .inl h
  · split at h <;> exact .inl h

theorem get?_record_of_unclaimed (hd : r.contains d.name = false) (name : String) :
    KeyMap.get? (r.record d) name = KeyMap.get? r name := by
  rw [record, KeyMap.get?_modify]
  split
  · rename_i hname
    have hnone : KeyMap.get? r name = none := by simpa [KeyMap.contains, hname] using hd
    rw [hnone, Option.map_none]
  · rfl

/-- A name that is recorded for the first time. -/
theorem Tracked.record (h : r.Tracked names) (hnew : d.name ∉ names) : (r.record d).Tracked (names ++ [d.name]) := by
  constructor
  · intro name entry hentry
    rw [Registry.record, KeyMap.get?_modify] at hentry
    split at hentry
    · obtain ⟨old, hold, rfl⟩ := Option.map_eq_some_iff.mp hentry
      rename_i hname
      exact coherent_recorded (h.blank hold (hname ▸ hnew)) d
    · exact h.coherent hentry
  · intro name entry hentry hname
    rw [List.mem_append, List.mem_singleton, not_or] at hname
    rw [Registry.record, KeyMap.get?_modify, if_neg hname.2] at hentry
    exact h.blank hentry hname.1

theorem Tracked.apply (h : r.Tracked names) (c : Change) (hnew : ∀ name, c.recorded? r = some name → name ∉ names) :
    (c.apply r).Tracked (names ++ (c.recorded? r).toList) := by
  cases c with
  | claim claimed origin =>
    rw [Change.recorded?, Option.toList_none, List.append_nil]
    constructor
    · intro name entry hentry
      exact (get?_claim hentry).elim h.coherent RegistryEntry.Blank.coherent
    · intro name entry hentry hname
      exact (get?_claim hentry).elim (h.blank · hname) id
  | record d =>
    cases hclaimed : r.contains d.name with
    | true =>
      have hrecorded : Change.recorded? r (.record d) = some d.name := if_pos hclaimed
      rw [hrecorded]
      exact h.record (hnew _ hrecorded)
    | false =>
      have hrecorded : Change.recorded? r (.record d) = none := if_neg (Bool.not_eq_true _ ▸ hclaimed)
      have hsame := get?_record_of_unclaimed hclaimed
      rw [hrecorded, Option.toList_none, List.append_nil]
      exact ⟨fun hentry => h.coherent (hsame _ ▸ hentry), fun hentry => h.blank (hsame _ ▸ hentry)⟩

theorem Tracked.after (h : r.Tracked names) (changes : List Change) (hnodup : (names ++ recordedBy r changes).Nodup) :
    (r.after changes).Tracked (names ++ recordedBy r changes) := by
  induction changes generalizing r names with
  | nil =>
    rw [recordedBy, List.append_nil]
    exact h
  | cons c rest ih =>
    rw [recordedBy, ← List.append_assoc] at hnodup ⊢
    refine ih (h.apply c ?_) hnodup
    intro name hname hmem
    rw [hname, Option.toList_some] at hnodup
    exact (List.nodup_append.mp hnodup.of_append_left).2.2 name hmem name List.mem_cons_self rfl

/-! ## The scalar at the end of a chain -/

theorem mem_keys_of_scalarOf (h : r.scalarOf? name = some k) : name ∈ r.keys := by
  obtain ⟨entry, hentry, -⟩ := Option.bind_eq_some_iff.mp h
  exact KeyMap.mem_keys_of_get? hentry

variable (hr : ∀ {name entry}, KeyMap.get? r name = some entry → entry.Coherent)
include hr

theorem scalarOf_of_aliasOf (h : r.aliasOf? name = some (.scalar k)) : r.scalarOf? name = some k := by
  obtain ⟨entry, hentry, halias⟩ := Option.bind_eq_some_iff.mp h
  rw [scalarOf?, hentry, Option.bind_some]
  exact (hr hentry).scalar_of_alias k halias

theorem aliasOf_of_scalarOf (h : r.scalarOf? name = some k) (halias : r.aliasOf? name = some t) : t = .scalar k := by
  obtain ⟨entry, hentry, hscalar⟩ := Option.bind_eq_some_iff.mp h
  rw [aliasOf?, hentry, Option.bind_some] at halias
  exact (hr hentry).alias_of_scalar k t hscalar halias

theorem followScalar_eq_some_iff :
    r.followScalar name steps = some k ↔
      ∃ passed last, r.Leads (.named name) passed (.named last) ∧ r.scalarOf? last = some k ∧ passed.length < steps := by
  induction steps generalizing name with
  | zero => simp [followScalar]
  | succ steps ih =>
    rw [followScalar]
    cases hscalar : r.scalarOf? name with
    | some first =>
      constructor
      · rintro ⟨⟩
        exact ⟨[], name, .here _, hscalar, Nat.succ_pos steps⟩
      · rintro ⟨passed, last, hpassed, hlast, -⟩
        cases hpassed with
        | here _ => exact hscalar.symm.trans hlast
        | link halias hrest =>
          cases aliasOf_of_scalarOf hr hscalar halias
          cases hrest
    | none =>
      constructor
      · intro h
        dsimp only at h
        split at h
        · rename_i next halias
          obtain ⟨passed, last, hpassed, hlast, hlength⟩ := ih.mp h
          exact ⟨name :: passed, last, .link halias hpassed, hlast, Nat.succ_lt_succ hlength⟩
        · cases h
      · rintro ⟨passed, last, hpassed, hlast, hlength⟩
        cases hpassed with
        | here _ =>
          rw [hscalar] at hlast
          cases hlast
        | @link _ t _ passed halias hrest =>
          have hnext : ∃ next, t = .named next := by
            cases hrest with
            | here _ => exact ⟨last, rfl⟩
            | link _ _ => exact ⟨_, rfl⟩
          obtain ⟨next, rfl⟩ := hnext
          simp only [halias]
          exact ih.mpr ⟨passed, last, hrest, hlast, Nat.lt_of_succ_lt_succ hlength⟩

/-- The scalar of a name is at the end of the chain from there, which leads at most one type further. -/
theorem endsAt_of_scalarOf (h : r.scalarOf? name = some k) :
    ∃ e, r.EndsAt (.named name) e ∧ (e = .scalar k ∨ ∃ last, e = .named last ∧ r.scalarOf? last = some k) := by
  cases halias : r.aliasOf? name with
  | none =>
    refine ⟨.named name, ⟨⟨[], .here _⟩, ?_⟩, .inr ⟨name, rfl, h⟩⟩
    rintro _ ⟨⟩
    exact halias
  | some t =>
    obtain rfl := aliasOf_of_scalarOf hr h halias
    refine ⟨.scalar k, ⟨⟨[name], .link halias (.here _)⟩, ?_⟩, .inl rfl⟩
    rintro _ ⟨⟩

/-- A chain to the end passes the name that has its scalar, after fewer links than there are names. -/
theorem exists_leads_of_endsAt (h : r.EndsAt (.named name) e)
    (hscalar : e = .scalar k ∨ ∃ last, e = .named last ∧ r.scalarOf? last = some k) :
    ∃ passed last, r.Leads (.named name) passed (.named last) ∧ r.scalarOf? last = some k ∧ passed.length < r.length := by
  obtain ⟨passed, hpassed, hnodup, hlength⟩ := h.exists_short
  rcases hscalar with rfl | ⟨last, rfl, hlast⟩
  · rcases hpassed.last with ⟨-, hnamed⟩ | ⟨before, last, rfl, hbefore, halias⟩
    · cases hnamed
    · rw [List.length_append, List.length_singleton] at hlength
      exact ⟨before, last, hbefore, scalarOf_of_aliasOf hr halias, hlength⟩
  · have hnew : last ∉ passed := by
      intro hmem
      obtain ⟨target, htarget⟩ := hpassed.exists_target hmem
      rw [h.2 last rfl] at htarget
      cases htarget
    have hkeys : last :: passed ⊆ r.keys := List.cons_subset.mpr ⟨mem_keys_of_scalarOf hlast, hpassed.subset_keys⟩
    exact ⟨passed, last, hpassed, hlast, length_le_of_nodup (List.nodup_cons.mpr ⟨hnew, hnodup⟩) hkeys⟩

theorem underlyingScalar_eq_some_iff :
    r.underlyingScalar? name = some k ↔
      ∃ e, r.EndsAt (.named name) e ∧ (e = .scalar k ∨ ∃ last, e = .named last ∧ r.scalarOf? last = some k) := by
  rw [underlyingScalar?, followScalar_eq_some_iff hr]
  constructor
  · rintro ⟨passed, last, hpassed, hlast, -⟩
    obtain ⟨e, ⟨⟨more, hmore⟩, he⟩, hscalar⟩ := endsAt_of_scalarOf hr hlast
    exact ⟨e, ⟨⟨passed ++ more, hpassed.trans hmore⟩, he⟩, hscalar⟩
  · rintro ⟨e, hends, hscalar⟩
    exact exists_leads_of_endsAt hr hends hscalar

end Registry

open Registry

/-- In a registry built by claims and records, no name recorded twice, a type resolves to the end
    of its chain of aliases, and to itself when the chain goes round, which it does if it does not end.
    A name wraps a scalar exactly when its chain ends in that scalar, or in a name that has it. -/
theorem alias_chains (changes : List Change) (h : (recordedBy [] changes).Nodup) :
    (∀ t e, (after [] changes).EndsAt t e → (after [] changes).resolveAlias t = e) ∧
      (∀ t, (after [] changes).Circles t → (after [] changes).resolveAlias t = t) ∧
      (∀ t, (after [] changes).Circles t ↔ ∀ e, ¬ (after [] changes).EndsAt t e) ∧
      ∀ name k, (after [] changes).underlyingScalar? name = some k ↔
        ∃ e, (after [] changes).EndsAt (.named name) e ∧
          (e = .scalar k ∨ ∃ last, e = .named last ∧ (after [] changes).scalarOf? last = some k) := by
  have hempty : Tracked [] [] := by constructor <;> rintro _ _ ⟨⟩
  have htracked := hempty.after changes h
  refine ⟨fun t e => resolveAlias_eq_of_endsAt, fun t => resolveAlias_eq_of_circles, fun t => circles_iff, ?_⟩
  intro name k
  exact underlyingScalar_eq_some_iff htracked.coherent

/-- An alias of an enum, two names that are aliases of each other, and a third one of them. -/
def circularChanges : List Change :=
  (["Status", "State", "Up", "Down", "Here"].map fun name => .claim name none) ++
    [.record (.enumeration ⟨"Status", .string, [], none⟩), .record (.type (.aliasOf "State" (.named "Status") none)),
      .record (.type (.aliasOf "Up" (.named "Down") none)), .record (.type (.aliasOf "Down" (.named "Up") none)),
      .record (.type (.aliasOf "Here" (.named "Up") none)), .record (.type (.aliasOf "Lost" (.named "Up") none)),
      .claim "Lost" none]

theorem alias_chains_circular :
    (recordedBy [] circularChanges).Nodup ∧
      (after [] circularChanges).resolveAlias (.named "State") = .named "Status" ∧
      (after [] circularChanges).underlyingScalar? "State" = some .string ∧
      (after [] circularChanges).resolveAlias (.named "Here") = .named "Here" ∧
      (after [] circularChanges).resolveAlias (.named "Lost") = .named "Lost" := by
  have hnodup : (recordedBy [] circularChanges).Nodup := by decide +kernel
  obtain ⟨hends, hcircles, -, hscalar⟩ := alias_chains circularChanges hnodup
  have hstate : (after [] circularChanges).EndsAt (.named "State") (.named "Status") := by
    refine ⟨⟨["State"], .link (by decide +kernel) (.here _)⟩, ?_⟩
    rintro _ ⟨⟩
    decide +kernel
  have hhere : (after [] circularChanges).Circles (.named "Here") :=
    ⟨["Here"], "Up", ["Up", "Down"], .link (by decide +kernel) (.here _),
      .link (by decide +kernel) (.link (by decide +kernel) (.here _)), List.cons_ne_nil _ _⟩
  have hlost : (after [] circularChanges).EndsAt (.named "Lost") (.named "Lost") := by
    refine ⟨⟨[], .here _⟩, ?_⟩
    rintro _ ⟨⟩
    decide +kernel
  refine ⟨hnodup, hends _ _ hstate, ?_, hcircles _ hhere, hends _ _ hlost⟩
  exact (hscalar _ _).mpr ⟨_, hstate, .inr ⟨"Status", rfl, by decide +kernel⟩⟩

end ClientGen
