import ClientGen.Proofs.Run.Composed

/-
  ClientGen.Proofs.Run.Reordered — a run does not look at what was reported before.

  Two sessions that differ in the order of their diagnostics lead to the same answer, or to the same
  error, and to two such sessions again (`SameOutcome`). The primitive steps but for looking at the
  session keep to that and sequences do (`stepwise_blind`), and whatever looks at the registry alone
  does too (`Blind.get`).
-/

namespace ClientGen

/-- The same registry, and the same diagnostics in some order. -/
def Session.Reordered (s t : Session) : Prop := s.registry = t.registry ∧ s.diagnostics.Perm t.diagnostics

theorem Session.Reordered.report {s t : Session} (h : s.Reordered t) {ds ds' : List Diagnostic} (hds : ds.Perm ds') :
    Session.Reordered { s with diagnostics := s.diagnostics ++ ds } { t with diagnostics := t.diagnostics ++ ds' } :=
  ⟨h.1, h.2.append hds⟩

namespace Resolve

variable {α β : Type}

/-- The same answer or the same error, with the same registry and the same diagnostics but for their order. -/
inductive SameOutcome : EStateM.Result BuildError Session α → EStateM.Result BuildError Session α → Prop
  | answer (a : α) {s t : Session} : s.Reordered t → SameOutcome (.ok a s) (.ok a t)
  | error (e : BuildError) {s t : Session} : s.Reordered t → SameOutcome (.error e s) (.error e t)

/-- The two computations end in the same way, and so they do after diagnostics in another order. -/
def Blind (x y : Resolve α) : Prop := ∀ ⦃s t : Session⦄, s.Reordered t → SameOutcome (x s) (y t)

namespace Blind

variable {x y : Resolve α} {f g : α → Resolve β}

theorem bind (h : Blind x y) (hf : ∀ a, Blind (f a) (g a)) : Blind (x >>= f) (y >>= g) := by
  intro s t hst
  have hfirst := h hst
  show SameOutcome (EStateM.bind x f s) (EStateM.bind y g t)
  unfold EStateM.bind
  generalize x s = r at hfirst ⊢
  generalize y t = r' at hfirst ⊢
  cases hfirst with
  | answer a hst => exact hf a hst
  | error e hst => exact .error e hst

theorem reportAll {ds ds' : List Diagnostic} (h : ds.Perm ds') : Blind (Resolve.reportAll ds) (Resolve.reportAll ds') :=
  fun _ _ hst => .answer _ (hst.report h)

/-- What follows may depend on the registry, but not on what was reported. -/
theorem get {f g : Session → Resolve β} (h : ∀ s t, s.registry = t.registry → Blind (f s) (g t)) :
    Blind (MonadState.get >>= f) (MonadState.get >>= g) := by
  intro s t hst
  exact h s t hst.1 hst

end Blind

theorem claim_blind (name : String) (origin : Option Schema) : Blind (claim name origin) (claim name origin) := by
  intro s t hst
  have hclaim : t.registry.claim name origin = s.registry.claim name origin := by rw [hst.1]
  have hget (u : Session) : (EStateM.get u : EStateM.Result BuildError Session Session) = .ok u u := rfl
  simp only [claim, Bind.bind, EStateM.bind, get, getThe, MonadStateOf.get, hget, hclaim]
  cases s.registry.claim name origin with
  | mk found r =>
    cases found with
    | fresh => exact .answer true ⟨rfl, hst.2⟩
    | existing => exact .answer false hst
    | collision => exact .answer false (hst.report (.refl _))

theorem stepwise_blind : Stepwise fun x => Blind x x where
  answer a := fun _ _ hst => .answer a hst
  sequence := .bind
  reports ds := .reportAll (.refl ds)
  claims := claim_blind
  records d := by
    intro s t hst
    refine .answer d ⟨?_, hst.2⟩
    show s.registry.record d = t.registry.record d
    rw [hst.1]
  runsOut := by
    intro α s t hst
    exact .error _ hst

theorem refusal_blind (operation key : String) :
    Blind (throw (.invalidStatus operation key) : Resolve α) (throw (.invalidStatus operation key)) := by
  intro s t hst
  exact .error _ hst

end Resolve

end ClientGen
