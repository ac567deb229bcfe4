import ClientGen.Proofs.Run.Operation

/-
  ClientGen.Proofs.Run.Method — the method of an operation, apart from what it declares.

  Names decide the types of a method, whether they were free or taken. So the method that an
  operation is mapped to depends on the document, the operation and its path alone, not on the
  session and not on the fuel (`mapOperation_agrees`).
  `Agree x y f`: whatever `x` and `y` answer, and wherever they start, `f` keeps the same of
  both answers. It passes through sequences, given what the first steps have in common.
-/

namespace ClientGen.Resolve

variable {α β γ δ : Type}

def Agree (x y : Resolve α) (f : α → β) : Prop := ∀ ⦃s a s' t b t'⦄, Runs x s a s' → Runs y t b t' → f a = f b

namespace Agree

theorem pure {a b : α} {f : α → β} (h : f a = f b) : Agree (Pure.pure a) (Pure.pure b) f := by
  intro s c s' t d t' hx hy
  rw [runs_pure] at hx hy
  rw [← hx.1, ← hy.1, h]

/-- Answers of which nothing is kept. -/
theorem any (x y : Resolve α) : Agree x y fun _ => () := fun _ _ _ _ _ _ _ _ => rfl

theorem bind {x y : Resolve α} {f : α → β} {k l : α → Resolve γ} {g : γ → δ} (h : Agree x y f)
    (hk : ∀ a b, f a = f b → Agree (k a) (l b) g) : Agree (x >>= k) (y >>= l) g := by
  intro s c s' t d t' hx hy
  obtain ⟨a, _, ha, hka⟩ := runs_bind.mp hx
  obtain ⟨b, _, hb, hlb⟩ := runs_bind.mp hy
  exact hk a b (h ha hb) hka hlb

theorem throw (e : BuildError) (y : Resolve α) (f : α → β) : Agree (MonadExcept.throw e) y f := by
  intro s a s' t b t' hx _
  cases hx

end Agree

variable {doc : Document} {fuel more : Nat}

theorem queryParams_agrees (operationId operationName : String) (parameters : List ParameterSpec) :
    Agree (queryParams doc operationId operationName parameters)
      (queryParams doc operationId operationName parameters) (·.2) := by
  refine .bind (.any _ _) fun _ _ _ => ?_
  split
  · exact .pure rfl
  · exact .bind (.any _ _) fun _ _ _ => .bind (.any _ _) fun _ _ _ => .pure rfl

theorem requestBody_agrees (operationName : String) (op : Operation) :
    Agree (requestBody doc fuel operationName op) (requestBody doc more operationName op) (·.2) := by
  simp only [requestBody]
  split
  · exact .pure rfl
  · exact .bind (.any _ _) fun _ _ _ => .pure rfl

theorem responseType_agrees (operationName key : String) (r : RefOr ResponseSpec) :
    Agree (responseType doc fuel operationName key r) (responseType doc more operationName key r) (·.1) := by
  unfold responseType
  split
  · exact .pure rfl
  · split
    · exact .pure rfl
    · split
      · exact .pure rfl
      · exact .bind (.any _ _) fun _ _ _ => .pure rfl

theorem response_agrees (operationId operationName key : String) (r : RefOr ResponseSpec) :
    Agree (response doc fuel operationId operationName key r) (response doc more operationId operationName key r)
      (·.1) := by
  simp only [response]
  split
  · exact .throw _ _ _
  · refine .bind (responseType_agrees operationName key r) fun a b htype => .pure ?_
    simp only [htype]

theorem responses_agree (operationId operationName : String) (rs : List (String × RefOr ResponseSpec)) :
    Agree (responses doc fuel operationId operationName rs) (responses doc more operationId operationName rs)
      (·.1) := by
  induction rs with
  | nil => exact .pure rfl
  | cons e rest ih =>
    refine .bind (response_agrees _ _ _ _) fun a b hone => .bind ih fun c d hrest => .pure ?_
    simp only [hone, hrest]

/-- An operation has one method, whatever was declared before it. -/
theorem mapOperation_agrees (httpMethod : HttpMethod) (path : String) (op : Operation)
    (ofPath : List (RefOr ParameterSpec)) :
    Agree (mapOperation doc fuel httpMethod path op ofPath) (mapOperation doc more httpMethod path op ofPath)
      (·.method) := by
  refine .bind (.any _ _) fun _ _ _ => .bind (.any _ _) fun _ _ _ => ?_
  refine .bind (queryParams_agrees _ _ _) fun _ _ hquery => ?_
  refine .bind (requestBody_agrees _ _) fun _ _ hbody => ?_
  refine .bind (responses_agree _ _ _) fun _ _ hresponses => .pure ?_
  simp only [hquery, hbody, hresponses]

end ClientGen.Resolve
