import ClientGen.Run
import ClientGen.Proofs.Files.Written

/-
  ClientGen.Proofs.Files.Failure — what a failed run leaves in the tree.

  A request that is refused and a document that cannot be read leave the tree as it was. A package
  that cannot be generated leaves what was made for it before: the output directory and the module
  file in it (`tree_of_failed_run`). So the tree may change although no file of the package is
  written (`keyword_package_leaves_module`).
-/

namespace ClientGen

open FileTree (Changes Nowhere Way keyIn PlainName)

/-- A failure to get at a request or its document. -/
def RunError.IsInput : RunError → Prop
  | .request _ => True
  | .unreadable _ _ => True
  | .document _ => True
  | .generation _ => False
  | .output _ => False

theorem isInput_of_loadDocument {t : FileTree} {source : String} {e : RunError} (h : loadDocument t source = .error e) :
    e.IsInput := by
  unfold loadDocument at h
  cases hread : t.readText source with
  | error cause =>
    rw [hread] at h
    cases h
    trivial
  | ok text =>
    simp only [hread, Except.mapError, bind, Except.bind] at h
    cases hdocument : Document.ofText text ((Path.extension? source).map asciiLower) with
    | error cause =>
      rw [hdocument] at h
      cases h
      trivial
    | ok doc =>
      rw [hdocument] at h
      cases h

theorem mapError_eq_ok {ε ε' : Type} {x : Except ε α} {f : ε → ε'} {a : α} : x.mapError f = .ok a ↔ x = .ok a := by
  cases x with
  | ok a => simp [Except.mapError]
  | error cause => simp [Except.mapError]

theorem mapError_eq_error {ε ε' : Type} {x : Except ε α} {f : ε → ε'} {e : ε'} :
    x.mapError f = .error e ↔ ∃ cause, x = .error cause ∧ f cause = e := by
  cases x with
  | ok a => simp [Except.mapError]
  | error cause => simp [Except.mapError]

/-- A document is read from a text that is there. -/
theorem loadDocument_eq_ok {t : FileTree} {source : String} {doc : Document} :
    loadDocument t source = .ok doc ↔ ∃ text, t.readText source = .ok text ∧
      Document.ofText text ((Path.extension? source).map asciiLower) = .ok doc := by
  refine FileTree.bind_eq_ok.trans ?_
  simp only [mapError_eq_ok]

namespace Run

variable {r : Request} {fuel : Nat} {t t' : FileTree} {e : RunError}

theorem lift_eq_ok {x : Except RunError α} {a : α} : lift x t = .ok a t' ↔ x = .ok a ∧ t' = t := by
  cases x with
  | ok b =>
    change EStateM.Result.ok b t = _ ↔ _
    simp [eq_comm]
  | error e =>
    change EStateM.Result.error e t = _ ↔ _
    simp

theorem lift_eq_error {x : Except RunError α} : lift x t = .error e t' ↔ x = .error e ∧ t' = t := by
  cases x with
  | ok b =>
    change EStateM.Result.ok b t = _ ↔ _
    simp
  | error e =>
    change EStateM.Result.error e t = _ ↔ _
    simp [eq_comm]

theorem output_eq_ok {step : Output α} {a : α} : output step t = .ok a t' ↔ step t = .ok a t' := by
  unfold output
  cases step t with
  | ok a t => simp
  | error e t => simp

theorem output_eq_error {step : Output α} (h : output step t = .error e t') :
    ∃ cause, e = .output cause ∧ step t = .error cause t' := by
  unfold output at h
  cases hstep : step t with
  | ok a t =>
    rw [hstep] at h
    cases h
  | error cause t =>
    rw [hstep] at h
    cases h
    exact ⟨cause, rfl, rfl⟩

/-- A run fails on its input, on the file system, or when the package is generated. -/
theorem execute_eq_error (h : execute fuel r t = .error e t') :
    e.IsInput ∧ t' = t ∨ (∃ cause, e = .output cause) ∨
      ∃ cause t₁ created, e = .generation cause ∧ Output.ensureDirectory r.directory t = .ok () t₁ ∧
        Output.writeIfAbsent (Path.join r.directory "go.mod") (moduleFile r.modulePath) t₁ = .ok created t' := by
  unfold execute at h
  rcases bind_eq_error.mp h with hrefused | ⟨_, t₀, hcheck, hchecked⟩
  · obtain ⟨hcause, rfl⟩ := lift_eq_error.mp hrefused
    obtain ⟨cause, -, rfl⟩ := mapError_eq_error.mp hcause
    exact .inl ⟨trivial, rfl⟩
  obtain ⟨-, rfl⟩ := lift_eq_ok.mp hcheck
  have hloading := (bind_eq_error.mp hchecked).resolve_left nofun
  obtain ⟨_, _, hget, hloading⟩ := hloading
  cases hget
  rcases bind_eq_error.mp hloading with hunread | ⟨doc, t₀, hload, hloaded⟩
  · obtain ⟨hcause, rfl⟩ := lift_eq_error.mp hunread
    exact .inl ⟨isInput_of_loadDocument hcause, rfl⟩
  obtain ⟨-, rfl⟩ := lift_eq_ok.mp hload
  rcases bind_eq_error.mp hloaded with hrefused | ⟨_, t₁, hensure, hensured⟩
  · obtain ⟨cause, rfl, -⟩ := output_eq_error hrefused
    exact .inr (.inl ⟨cause, rfl⟩)
  rcases bind_eq_error.mp hensured with hrefused | ⟨created, t₂, hmodule, hprepared⟩
  · obtain ⟨cause, rfl, -⟩ := output_eq_error hrefused
    exact .inr (.inl ⟨cause, rfl⟩)
  rcases bind_eq_error.mp hprepared with hfailed | ⟨generated, t₃, hgenerate, hgenerated⟩
  · obtain ⟨hcause, rfl⟩ := lift_eq_error.mp hfailed
    obtain ⟨cause, -, rfl⟩ := mapError_eq_error.mp hcause
    exact .inr (.inr ⟨cause, t₁, created, rfl, output_eq_ok.mp hensure, output_eq_ok.mp hmodule⟩)
  rcases bind_eq_error.mp hgenerated with hrefused | ⟨count, t₄, -, hreport⟩
  · obtain ⟨cause, rfl, -⟩ := output_eq_error hrefused
    exact .inr (.inl ⟨cause, rfl⟩)
  · cases hreport

/-! ## What was made before -/

theorem plainName_goMod : PlainName "go.mod" where
  nonempty := rfl
  noSlash := by decide
  notSelf := by decide
  notUp := by decide

/-- What a run makes before the package: directories on the way to the output directory and the module file. -/
def Prepared (r : Request) (key : String) (e : Entry) : Prop :=
  Way r.directory key e ∨ Output.Put (keyIn r.directory "go.mod") (moduleFile r.modulePath) key e

theorem changes_of_prepared {t₁ : FileTree} {created : Bool}
    (hensure : Output.ensureDirectory r.directory t = .ok () t₁)
    (hmodule : Output.writeIfAbsent (Path.join r.directory "go.mod") (moduleFile r.modulePath) t₁ = .ok created t') :
    Changes Nowhere (Prepared r) t t' := by
  have hway := Output.outcome_ensureDirectory t r.directory
  have hput := Output.outcome_writeIfAbsent (Path.join r.directory "go.mod") (moduleFile r.modulePath) t₁
  rw [hensure] at hway
  rw [hmodule, FileTree.keyOf_join r.directory plainName_goMod] at hput
  have hfirst : Changes Nowhere (Prepared r) t t₁ := hway.changes_of_ok.mono (fun _ => id) fun _ _ => .inl
  have hsecond : Changes Nowhere (Prepared r) t₁ t' := hput.changes_of_ok.mono (fun _ => id) fun _ _ => .inr
  exact hfirst.trans hsecond

theorem module_of_prepared {t₁ : FileTree} {created : Bool}
    (hmodule : Output.writeIfAbsent (Path.join r.directory "go.mod") (moduleFile r.modulePath) t₁ = .ok created t') :
    ∃ e, KeyMap.get? t' (keyIn r.directory "go.mod") = some e := by
  obtain ⟨e, he⟩ := Output.entryAt?_of_writeIfAbsent hmodule
  rw [FileTree.placeOf_join r.directory plainName_goMod] at he
  have htop : FileTree.isTop (FileTree.placeOf r.directory ++ ["go.mod"]) = false := by
    simp [FileTree.isTop]
  unfold FileTree.entryAt? at he
  rw [htop] at he
  exact ⟨e, he⟩

/-- A run that fails on its input leaves the tree as it was. One that cannot generate the package leaves what it made
before: every entry stays, nothing is new but directories on the way and the module file, and its place is taken. -/
theorem tree_of_failed_run (h : execute fuel r t = .error e t') :
    (e.IsInput → t' = t) ∧
      ∀ cause, e = .generation cause →
        Changes Nowhere (Prepared r) t t' ∧ ∃ entry, KeyMap.get? t' (keyIn r.directory "go.mod") = some entry := by
  rcases execute_eq_error h with ⟨hinput, rfl⟩ | ⟨cause, rfl⟩ | ⟨cause, t₁, created, rfl, hensure, hmodule⟩
  case inl =>
    refine ⟨fun _ => rfl, ?_⟩
    rintro cause rfl
    exact hinput.elim
  case inr.inl => exact ⟨False.elim, nofun⟩
  case inr.inr => exact ⟨False.elim, fun _ _ => ⟨changes_of_prepared hensure hmodule, module_of_prepared hmodule⟩⟩

/-! ## A package that may not be named so -/

def emptyApi : FileTree :=
  [("api.json", .file
    "\x7b\"openapi\": \"3.0.3\", \"info\": \x7b\"title\": \"T\", \"version\": \"1\"\x7d, \"paths\": \x7b\x7d\x7d".toUTF8)]

/-- The package is named by a keyword, which only the generation of the package looks at. -/
def keywordRequest : Request := ⟨"api.json", "out", "m", "func", none, none, true⟩

theorem keywordRequest_fails :
    errorOf? (execute 1 keywordRequest emptyApi) = some (.generation (.config (.keyword "func"))) := by
  decide +kernel

/-- The rule applies to a package named by a keyword. -/
theorem tree_of_keyword_package :
    ∃ t', execute 1 keywordRequest emptyApi = .error (.generation (.config (.keyword "func"))) t' ∧
      Changes Nowhere (Prepared keywordRequest) emptyApi t' ∧
        ∃ entry, KeyMap.get? t' (keyIn "out" "go.mod") = some entry := by
  have hrun := eq_error_of_errorOf? keywordRequest_fails
  exact ⟨_, hrun, (tree_of_failed_run hrun).2 _ rfl⟩

/-- Nothing of the package is written, and the tree is another one. -/
theorem keyword_package_leaves_module :
    ∃ t', execute 1 keywordRequest emptyApi = .error (.generation (.config (.keyword "func"))) t' ∧
      KeyMap.get? emptyApi "out/go.mod" = none ∧ KeyMap.get? t' "out/go.mod" ≠ none := by
  have hkeys : KeyMap.keys (stateOf (execute 1 keywordRequest emptyApi)) = ["api.json", "out", "out/go.mod"] := by
    decide +kernel
  refine ⟨_, eq_error_of_errorOf? keywordRequest_fails, by decide +kernel, ?_⟩
  intro hnone
  rw [KeyMap.get?_eq_none_iff, hkeys] at hnone
  exact hnone (by decide)

end Run

end ClientGen
