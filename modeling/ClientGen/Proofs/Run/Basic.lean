import ClientGen.Resolve.Basic

/-
  ClientGen.Proofs.Run.Basic — how a computation on a session ends.

  `Runs x s a s'`: started in `s`, `x` answers `a` and leaves `s'`. `RunsOut x s s'`: it runs out
  of fuel and leaves `s'`. A sequence of steps is taken apart by `runs_bind` and `runsOut_bind`;
  after that each primitive step has one lemma that says everything it can do, and no proof
  about a longer computation opens it again.
  - A claim always answers. It is fresh exactly when the name is not in the registry, and only
    then the registry changes (`exists_runs_claim`, `runs_claim`). A name that is in the registry
    is reused or collides, and only a collision is reported (`Reclaimed`).
  - `declaring` builds only after a fresh claim, with the name already taken (`runs_declaring`).
  - A closed computation is run by evaluating a test of its answer (`exists_runs_of_passes`).
  - Only resolving itself runs out: the primitive steps never do (`not_runsOut_claim`, …).
-/

namespace ClientGen.Resolve

variable {α β : Type} {s s' s'' : Session} {a b : α}

def Runs (x : Resolve α) (s : Session) (a : α) (s' : Session) : Prop := x s = .ok a s'

def RunsOut (x : Resolve α) (s s' : Session) : Prop := x s = .error .outOfFuel s'

/-! ## Sequences -/

@[simp] theorem runs_pure : Runs (pure a) s b s' ↔ a = b ∧ s = s' := by
  show EStateM.Result.ok a s = .ok b s' ↔ _
  rw [EStateM.Result.ok.injEq]

@[simp] theorem runs_bind {x : Resolve α} {f : α → Resolve β} {c : β} :
    Runs (x >>= f) s c s'' ↔ ∃ a s', Runs x s a s' ∧ Runs (f a) s' c s'' := by
  simp only [Runs, bind, EStateM.bind]
  constructor
  · intro h
    split at h
    · exact ⟨_, _, ‹_›, h⟩
    · cases h
  · rintro ⟨a, s', hx, hf⟩
    rw [hx]; exact hf

@[simp] theorem not_runsOut_pure : ¬ RunsOut (pure a) s s' := by
  intro h
  cases h

@[simp] theorem runsOut_bind {x : Resolve α} {f : α → Resolve β} :
    RunsOut (x >>= f) s s'' ↔ RunsOut x s s'' ∨ ∃ a s', Runs x s a s' ∧ RunsOut (f a) s' s'' := by
  simp only [Runs, RunsOut, bind, EStateM.bind]
  cases x s with
  | ok a s' =>
    constructor
    · intro h; exact .inr ⟨a, s', rfl, h⟩
    · rintro (h | ⟨_, _, h, hf⟩)
      · cases h
      · cases h; exact hf
  | error e s' =>
    constructor
    · intro h; cases h; exact .inl rfl
    · rintro (h | ⟨_, _, h, -⟩)
      · cases h; rfl
      · cases h

@[simp] theorem runs_map {x : Resolve α} {f : α → β} {b : β} :
    Runs (f <$> x) s b s' ↔ ∃ a, Runs x s a s' ∧ f a = b := by
  simp only [Runs, Functor.map, EStateM.map]
  cases x s with
  | ok a t =>
    simp only [EStateM.Result.ok.injEq]
    constructor
    · rintro ⟨rfl, rfl⟩; exact ⟨a, ⟨rfl, rfl⟩, rfl⟩
    · rintro ⟨_, ⟨rfl, rfl⟩, rfl⟩; exact ⟨rfl, rfl⟩
  | error e t => simp

@[simp] theorem runsOut_map {x : Resolve α} {f : α → β} : RunsOut (f <$> x) s s' ↔ RunsOut x s s' := by
  simp only [RunsOut, Functor.map, EStateM.map]
  cases x s with
  | ok a t => simp
  | error e t => simp

/-! ## Runs found by evaluation -/

/-- Whether a computation answers, and with something that passes a test. -/
def passes (x : Resolve α) (s : Session) (test : α → Session → Bool) : Bool :=
  match x s with
  | .ok a s' => test a s'
  | .error _ _ => false

theorem exists_runs_of_passes {x : Resolve α} {test : α → Session → Bool} (h : passes x s test = true) :
    ∃ a s', Runs x s a s' ∧ test a s' = true := by
  unfold passes at h
  split at h
  · exact ⟨_, _, ‹_›, h⟩
  · cases h

theorem exists_runs_of_answers [DecidableEq α] {x : Resolve α} {a : α}
    (h : passes x s (fun answer _ => decide (answer = a)) = true) : ∃ s', Runs x s a s' := by
  obtain ⟨answer, s', hruns, htest⟩ := exists_runs_of_passes h
  obtain rfl := of_decide_eq_true htest
  exact ⟨s', hruns⟩

/-! ## Primitive steps -/

@[simp] theorem runs_get {t : Session} : Runs get s t s' ↔ s = t ∧ s = s' := by
  show EStateM.Result.ok s s = .ok t s' ↔ _
  rw [EStateM.Result.ok.injEq]

@[simp] theorem runs_set {t : Session} {u : PUnit} : Runs (set t) s u s' ↔ t = s' := by
  show EStateM.Result.ok ⟨⟩ t = .ok u s' ↔ _
  rw [EStateM.Result.ok.injEq]
  exact and_iff_right rfl

@[simp] theorem runs_modify {f : Session → Session} {u : PUnit} : Runs (modify f) s u s' ↔ f s = s' := by
  show EStateM.Result.ok ⟨⟩ (f s) = .ok u s' ↔ _
  rw [EStateM.Result.ok.injEq]
  exact and_iff_right rfl

@[simp] theorem not_runsOut_get : ¬ RunsOut get s s' := by
  intro h
  cases h

@[simp] theorem not_runsOut_set {t : Session} : ¬ RunsOut (set t) s s' := by
  intro h
  cases h

@[simp] theorem not_runsOut_modify {f : Session → Session} : ¬ RunsOut (modify f) s s' := by
  intro h
  cases h

@[simp] theorem runs_report {d : Diagnostic} {u : Unit} :
    Runs (report d) s u s' ↔ { s with diagnostics := s.diagnostics ++ [d] } = s' := runs_modify

@[simp] theorem runs_reportAll {ds : List Diagnostic} {u : Unit} :
    Runs (reportAll ds) s u s' ↔ { s with diagnostics := s.diagnostics ++ ds } = s' := runs_modify

@[simp] theorem not_runsOut_report {d : Diagnostic} : ¬ RunsOut (report d) s s' := not_runsOut_modify

@[simp] theorem not_runsOut_reportAll {ds : List Diagnostic} : ¬ RunsOut (reportAll ds) s s' := not_runsOut_modify

/-! ## Claiming and recording -/

/-- The session after a fresh claim. -/
def claimed (s : Session) (name : String) (origin : Option Schema) : Session :=
  { s with registry := KeyMap.insert name ⟨origin, none, none⟩ s.registry }

/-- The session after a declaration was built. -/
def recorded (s : Session) (d : Declaration) : Session := { s with registry := s.registry.record d }

@[simp] theorem keys_recorded (s : Session) (d : Declaration) : (recorded s d).registry.keys = s.registry.keys :=
  KeyMap.keys_modify _ _ _

theorem mem_keys_claimed {name k : String} {origin : Option Schema} :
    k ∈ (claimed s name origin).registry.keys ↔ k = name ∨ k ∈ s.registry.keys := KeyMap.mem_keys_insert

/-- What a claim of a taken name leaves behind. -/
inductive Reclaimed (name : String) (origin : Option Schema) (s : Session) : Session → Prop
  | reuse {entry : RegistryEntry} : KeyMap.get? s.registry name = some entry →
      Registry.sameOrigin entry origin = true → Reclaimed name origin s s
  | collision {entry : RegistryEntry} : KeyMap.get? s.registry name = some entry →
      Registry.sameOrigin entry origin = false →
      Reclaimed name origin s { s with diagnostics := s.diagnostics ++ [.nameCollision name] }

theorem Reclaimed.mem_keys {name : String} {origin : Option Schema} (h : Reclaimed name origin s s') :
    name ∈ s.registry.keys := by
  cases h with
  | reuse hentry _ => exact KeyMap.mem_keys_of_get? hentry
  | collision hentry _ => exact KeyMap.mem_keys_of_get? hentry

theorem Reclaimed.registry_eq {name : String} {origin : Option Schema} (h : Reclaimed name origin s s') :
    s'.registry = s.registry := by
  cases h with
  | reuse _ _ => rfl
  | collision _ _ => rfl

theorem runs_claim {name : String} {origin : Option Schema} {fresh : Bool} (h : Runs (claim name origin) s fresh s') :
    (fresh = true ∧ name ∉ s.registry.keys ∧ s' = claimed s name origin) ∨
      (fresh = false ∧ Reclaimed name origin s s') := by
  simp only [claim, runs_bind, runs_get] at h
  obtain ⟨_, _, ⟨rfl, rfl⟩, h⟩ := h
  unfold Registry.claim at h
  cases hentry : KeyMap.get? s.registry name with
  | none =>
    simp only [hentry, runs_bind, runs_set, runs_pure] at h
    obtain ⟨_, _, rfl, rfl, rfl⟩ := h
    exact .inl ⟨rfl, KeyMap.get?_eq_none_iff.mp hentry, rfl⟩
  | some entry =>
    by_cases hsame : Registry.sameOrigin entry origin = true
    · simp only [hentry, hsame, if_true, runs_pure] at h
      obtain ⟨rfl, rfl⟩ := h
      exact .inr ⟨rfl, .reuse hentry hsame⟩
    · simp only [hentry, hsame, Bool.false_eq_true, if_false, runs_bind, runs_report, runs_pure] at h
      obtain ⟨_, _, rfl, rfl, rfl⟩ := h
      exact .inr ⟨rfl, .collision hentry (Bool.eq_false_iff.mpr hsame)⟩

theorem exists_runs_claim (name : String) (origin : Option Schema) (s : Session) :
    ∃ fresh s', Runs (claim name origin) s fresh s' := by
  simp only [claim, runs_bind, runs_get]
  cases hc : s.registry.claim name origin with
  | mk c r =>
    cases c with
    | fresh =>
      refine ⟨true, { s with registry := r }, s, s, ⟨rfl, rfl⟩, ?_⟩
      rw [hc]
      exact runs_bind.mpr ⟨⟨⟩, _, runs_set.mpr rfl, runs_pure.mpr ⟨rfl, rfl⟩⟩
    | existing =>
      refine ⟨false, s, s, s, ⟨rfl, rfl⟩, ?_⟩
      rw [hc]
      exact runs_pure.mpr ⟨rfl, rfl⟩
    | collision =>
      refine ⟨false, { s with diagnostics := s.diagnostics ++ [.nameCollision name] }, s, s, ⟨rfl, rfl⟩, ?_⟩
      rw [hc]
      exact runs_bind.mpr ⟨⟨⟩, _, runs_report.mpr rfl, runs_pure.mpr ⟨rfl, rfl⟩⟩

theorem runs_claim_of_not_mem {name : String} {origin : Option Schema} (hn : name ∉ s.registry.keys) :
    Runs (claim name origin) s true (claimed s name origin) := by
  obtain ⟨fresh, s', h⟩ := exists_runs_claim name origin s
  rcases runs_claim h with ⟨rfl, -, rfl⟩ | ⟨-, htaken⟩
  · exact h
  · exact absurd htaken.mem_keys hn

theorem runs_claim_of_mem {name : String} (origin : Option Schema) (hn : name ∈ s.registry.keys) :
    ∃ s', Runs (claim name origin) s false s' ∧ s'.registry = s.registry := by
  obtain ⟨fresh, s', h⟩ := exists_runs_claim name origin s
  rcases runs_claim h with ⟨-, hmem, -⟩ | ⟨rfl, htaken⟩
  · exact absurd hn hmem
  · exact ⟨s', h, htaken.registry_eq⟩

@[simp] theorem not_runsOut_claim {name : String} {origin : Option Schema} : ¬ RunsOut (claim name origin) s s' := by
  intro h
  simp only [claim, runsOut_bind, runs_get, not_runsOut_get, false_or] at h
  obtain ⟨_, _, -, h⟩ := h
  split at h <;> simp at h

@[simp] theorem runs_finish {d e : Declaration} : Runs (finish d) s e s' ↔ d = e ∧ recorded s d = s' := by
  simp [finish, recorded, and_comm]

@[simp] theorem not_runsOut_finish {d : Declaration} : ¬ RunsOut (finish d) s s' := by
  simp [finish]

theorem runs_declare {d : Declaration} {o : Option Declaration} (h : Runs (declare d) s o s') :
    (o = some d ∧ d.name ∉ s.registry.keys ∧ s' = recorded (claimed s d.name none) d) ∨
      (o = none ∧ Reclaimed d.name none s s') := by
  simp only [declare, runs_bind] at h
  obtain ⟨fresh, s1, hc, h⟩ := h
  rcases runs_claim hc with ⟨rfl, hn, rfl⟩ | ⟨rfl, htaken⟩
  · simp only [if_true, runs_bind, runs_finish, runs_pure] at h
    obtain ⟨_, _, ⟨rfl, rfl⟩, rfl, rfl⟩ := h
    exact .inl ⟨rfl, hn, rfl⟩
  · simp only [Bool.false_eq_true, if_false, runs_pure] at h
    obtain ⟨rfl, rfl⟩ := h
    exact .inr ⟨rfl, htaken⟩

@[simp] theorem not_runsOut_declare {d : Declaration} : ¬ RunsOut (declare d) s s' := by
  intro h
  simp only [declare, runsOut_bind, not_runsOut_claim, false_or] at h
  obtain ⟨fresh, _, -, h⟩ := h
  cases fresh <;> simp at h

/-- Either the name was free, and the declaration was built with the name taken, or nothing was
    built. -/
theorem runs_declaring {name : String} {sch : Schema} {build : Resolve (Declaration × List Declaration)}
    {r : Resolution} (h : Runs (declaring name sch build) s r s') :
    (∃ d nested t, name ∉ s.registry.keys ∧ Runs build (claimed s name (some sch)) (d, nested) t ∧
        r = ⟨.named name, d :: nested⟩ ∧ s' = recorded t d) ∨
      (Reclaimed name (some sch) s s' ∧ r = .of (.named name)) := by
  simp only [declaring, runs_bind] at h
  obtain ⟨fresh, s1, hc, h⟩ := h
  rcases runs_claim hc with ⟨rfl, hn, rfl⟩ | ⟨rfl, htaken⟩
  · simp only [if_true, runs_bind, runs_finish, runs_pure] at h
    obtain ⟨⟨d, nested⟩, t, hb, _, _, ⟨rfl, rfl⟩, rfl, rfl⟩ := h
    exact .inl ⟨d, nested, t, hn, hb, rfl, rfl⟩
  · simp only [Bool.false_eq_true, if_false, runs_pure] at h
    obtain ⟨rfl, rfl⟩ := h
    exact .inr ⟨htaken, rfl⟩

theorem runs_declaring_of_mem {name : String} (sch : Schema) (build : Resolve (Declaration × List Declaration))
    (hn : name ∈ s.registry.keys) :
    ∃ s', Runs (declaring name sch build) s (.of (.named name)) s' ∧ s'.registry = s.registry := by
  obtain ⟨s', hclaim, hr⟩ := runs_claim_of_mem (some sch) hn
  exact ⟨s', runs_bind.mpr ⟨false, s', hclaim, runs_pure.mpr ⟨rfl, rfl⟩⟩, hr⟩

theorem runs_declaring_of_not_mem {name : String} {sch : Schema} {build : Resolve (Declaration × List Declaration)}
    {d : Declaration} {nested : List Declaration} (hn : name ∉ s.registry.keys)
    (hbuild : Runs build (claimed s name (some sch)) (d, nested) s') :
    Runs (declaring name sch build) s ⟨.named name, d :: nested⟩ (recorded s' d) := by
  refine runs_bind.mpr ⟨true, _, runs_claim_of_not_mem hn, ?_⟩
  exact runs_bind.mpr ⟨_, _, hbuild, runs_bind.mpr ⟨d, _, runs_finish.mpr ⟨rfl, rfl⟩, runs_pure.mpr ⟨rfl, rfl⟩⟩⟩

/-- Only the building can run out, and then the name has been claimed. -/
theorem runsOut_declaring {name : String} {sch : Schema} {build : Resolve (Declaration × List Declaration)}
    (h : RunsOut (declaring name sch build) s s') :
    name ∉ s.registry.keys ∧ RunsOut build (claimed s name (some sch)) s' := by
  simp only [declaring, runsOut_bind, not_runsOut_claim, false_or] at h
  obtain ⟨fresh, s1, hc, h⟩ := h
  rcases runs_claim hc with ⟨rfl, hn, rfl⟩ | ⟨rfl, -⟩
  · simp only [if_true, runsOut_bind, not_runsOut_finish, not_runsOut_pure, and_false, exists_false, or_false]
      at h
    exact ⟨hn, h⟩
  · simp at h

end ClientGen.Resolve
