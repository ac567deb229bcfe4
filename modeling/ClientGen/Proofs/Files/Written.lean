import ClientGen.Proofs.Files.Changed

/-
  ClientGen.Proofs.Files.Written — what the steps that write a package leave in the tree.

  Steps end, or the file system refuses one of them; either way the tree has only changed as
  `Outcome` says, and steps one after the other may change what each of them may (`Outcome.bind`).
  - A file written unless it is there changes nothing that is (`outcome_writeIfAbsent`).
  - The files of a package whose paths are names go into the output directory and change nothing
    else, and no path is refused as absolute (`outcome_writeArtifacts`).
  - If the paths differ, every file is there in the end (`get?_of_writeArtifacts`).
-/

namespace ClientGen

open FileTree (Changes Nowhere Way keyOf keyIn PlainName)

/-! ## Steps one after another -/

section

variable {ε σ : Type} {first : EStateM ε σ α} {next : α → EStateM ε σ β} {s s' : σ}

theorem bind_eq_ok {b : β} :
    (first >>= next) s = .ok b s' ↔ ∃ a s₁, first s = .ok a s₁ ∧ next a s₁ = .ok b s' := by
  change EStateM.bind first next s = _ ↔ _
  unfold EStateM.bind
  cases first s with
  | ok a s₁ => simp
  | error e s₁ => simp

theorem bind_eq_error {e : ε} :
    (first >>= next) s = .error e s' ↔
      first s = .error e s' ∨ ∃ a s₁, first s = .ok a s₁ ∧ next a s₁ = .error e s' := by
  change EStateM.bind first next s = _ ↔ _
  unfold EStateM.bind
  cases first s with
  | ok a s₁ => simp
  | error e s₁ => simp

/-- What steps end with, also where they fail. -/
def stateOf : EStateM.Result ε σ α → σ
  | .ok _ s => s
  | .error _ s => s

/-- What holds of each state and the next holds of the first and the last. -/
theorem stateOf_bind {R : σ → σ → Prop} (htrans : ∀ {s₁ s₂ s₃}, R s₁ s₂ → R s₂ s₃ → R s₁ s₃)
    (h : R s (stateOf (first s))) (hnext : ∀ a s₁, first s = .ok a s₁ → R s₁ (stateOf (next a s₁))) :
    R s (stateOf ((first >>= next) s)) := by
  change R s (stateOf (EStateM.bind first next s))
  unfold EStateM.bind
  cases hfirst : first s with
  | ok a s₁ =>
    rw [hfirst] at h
    exact htrans h (hnext a s₁ hfirst)
  | error e s₁ =>
    rw [hfirst] at h
    exact h

def errorOf? : EStateM.Result ε σ α → Option ε
  | .ok _ _ => none
  | .error e _ => some e

theorem eq_ok_of_errorOf? {result : EStateM.Result ε σ α} (h : errorOf? result = none) :
    ∃ a, result = .ok a (stateOf result) := by
  cases result with
  | ok a s => exact ⟨a, rfl⟩
  | error e s => cases h

theorem eq_error_of_errorOf? {result : EStateM.Result ε σ α} {e : ε} (h : errorOf? result = some e) :
    result = .error e (stateOf result) := by
  cases result with
  | ok a s => cases h
  | error e' s =>
    cases h
    rfl

end

/-- How steps end: with the changes that they may make, also where the file system refuses one. -/
inductive Outcome (owned : String → Prop) (new : String → Entry → Prop) (t : FileTree) :
    EStateM.Result OutputError FileTree α → Prop
  | done {a : α} {t' : FileTree} : Changes owned new t t' → Outcome owned new t (.ok a t')
  | refused {action path : String} {cause : FileError} {t' : FileTree} :
      Changes owned new t t' → Outcome owned new t (.error (.failed action path cause) t')

namespace Outcome

variable {owned owned' : String → Prop} {new new' : String → Entry → Prop} {t t₁ : FileTree}
  {result : EStateM.Result OutputError FileTree α}

theorem mono (h : Outcome owned new t result) (howned : ∀ key, owned key → owned' key)
    (hnew : ∀ key e, new key e → new' key e) : Outcome owned' new' t result := by
  cases h with
  | done h => exact .done (h.mono howned hnew)
  | refused h => exact .refused (h.mono howned hnew)

theorem changes (h : Outcome owned new t result) : Changes owned new t (stateOf result) := by
  cases h with
  | done h => exact h
  | refused h => exact h

/-- A path that is refused as absolute ends no steps. -/
theorem relative (h : Outcome owned new t result) (path : String) (t' : FileTree) :
    result ≠ .error (.notRelative path) t' := by
  rintro rfl
  cases h

theorem changes_of_ok {a : α} {t' : FileTree} (h : Outcome owned new t (.ok a t')) : Changes owned new t t' := by
  cases h with
  | done h => exact h

theorem after (hbefore : Changes owned new t t₁) (h : Outcome owned new t₁ result) : Outcome owned new t result := by
  cases h with
  | done h => exact .done (hbefore.trans h)
  | refused h => exact .refused (hbefore.trans h)

theorem bind {first : Output α} {next : α → Output β} (h : Outcome owned new t (first t))
    (hnext : ∀ a t₁, first t = .ok a t₁ → Outcome owned new t₁ (next a t₁)) :
    Outcome owned new t ((first >>= next) t) := by
  change Outcome owned new t (EStateM.bind first next t)
  unfold EStateM.bind
  cases hfirst : first t with
  | ok a t₁ =>
    rw [hfirst] at h
    cases h with
    | done h => exact after h (hnext a t₁ hfirst)
  | error e t₁ =>
    rw [hfirst] at h
    cases h with
    | refused h => exact .refused h

end Outcome

namespace Output

variable {t t' : FileTree} {directory path content action : String} {a : Template.Artifact}

/-- A file with some content at one place. -/
def Put (place content key : String) (e : Entry) : Prop := key = place ∧ e = .file content.toUTF8

theorem ensureDirectory_run (path : String) (t : FileTree) :
    ensureDirectory path t = match t.ensureDirectory path with
      | (t', .ok ()) => .ok () t'
      | (t', .error e) => .error (.failed "create directory" path e) t' := by
  unfold ensureDirectory
  simp only [bind, EStateM.bind, get, getThe, MonadStateOf.get, EStateM.get, set, EStateM.set]
  rcases t.ensureDirectory path with ⟨t', e | u⟩
  · rfl
  · rfl

theorem outcome_ensureDirectory (t : FileTree) (path : String) :
    Outcome Nowhere (Way path) t (ensureDirectory path t) := by
  have h := FileTree.changes_ensureDirectory t path
  rw [ensureDirectory_run]
  rcases hensure : t.ensureDirectory path with ⟨t', e | u⟩
  · rw [hensure] at h
    exact .refused h
  · rw [hensure] at h
    exact .done h

theorem writeFile_run (action path content : String) (t : FileTree) :
    writeFile action path content t = match t.writeFile path content.toUTF8 with
      | .ok t' => .ok () t'
      | .error e => .error (.failed action path e) t := by
  unfold writeFile
  simp only [bind, EStateM.bind, get, getThe, MonadStateOf.get, EStateM.get]
  cases t.writeFile path content.toUTF8 with
  | ok t' => rfl
  | error e => rfl

theorem outcome_writeFile (action path content : String) (t : FileTree) :
    Outcome (· = keyOf path) (Put (keyOf path) content) t (writeFile action path content t) := by
  rw [writeFile_run]
  cases hwrite : t.writeFile path content.toUTF8 with
  | error e => exact .refused (.refl t)
  | ok t' =>
    obtain ⟨p, name, -, -, -, rfl⟩ := FileTree.writeFile_eq_ok.mp hwrite
    exact .done (.insert t (.inl rfl) ⟨rfl, rfl⟩)

theorem get?_of_writeFile (h : writeFile action path content t = .ok () t') :
    KeyMap.get? t' (keyOf path) = some (.file content.toUTF8) := by
  rw [writeFile_run] at h
  cases hwrite : t.writeFile path content.toUTF8 with
  | error e =>
    rw [hwrite] at h
    cases h
  | ok t₁ =>
    rw [hwrite] at h
    cases h
    obtain ⟨p, name, -, -, -, rfl⟩ := FileTree.writeFile_eq_ok.mp hwrite
    exact KeyMap.get?_insert_self _ _ t

/-! ## A file unless it is there -/

theorem writeIfAbsent_run (path content : String) (t : FileTree) :
    writeIfAbsent path content t = match t.isThere path with
      | .error e => .error (.failed "inspect" path e) t
      | .ok true => .ok false t
      | .ok false =>
        match t.writeFile path content.toUTF8 with
        | .ok t' => .ok true t'
        | .error e => .error (.failed "write file" path e) t := by
  unfold writeIfAbsent
  simp only [bind, EStateM.bind, get, getThe, MonadStateOf.get, EStateM.get]
  rcases t.isThere path with e | found
  · rfl
  · cases found with
    | true => rfl
    | false =>
      dsimp only
      unfold EStateM.bind
      rw [writeFile_run]
      cases t.writeFile path content.toUTF8 with
      | ok t' => rfl
      | error e => rfl

/-- What is there stays. -/
theorem outcome_writeIfAbsent (path content : String) (t : FileTree) :
    Outcome Nowhere (Put (keyOf path) content) t (writeIfAbsent path content t) := by
  rw [writeIfAbsent_run]
  split
  · exact .refused (.refl t)
  · exact .done (.refl t)
  · rename_i habsent
    cases hwrite : t.writeFile path content.toUTF8 with
    | error e => exact .refused (.refl t)
    | ok t' =>
      obtain ⟨p, name, hnew, -, -, rfl⟩ := FileTree.writeFile_eq_ok.mp hwrite
      exact .done (.insert t (.inr (FileTree.get?_of_not_isThere hnew habsent)) ⟨rfl, rfl⟩)

/-- Afterwards something is there. -/
theorem entryAt?_of_writeIfAbsent {created : Bool} (h : writeIfAbsent path content t = .ok created t') :
    ∃ e, t'.entryAt? (FileTree.placeOf path) = some e := by
  rw [writeIfAbsent_run] at h
  split at h
  · cases h
  · rename_i hthere
    cases h
    exact FileTree.entryAt?_of_isThere hthere
  · cases hwrite : t.writeFile path content.toUTF8 with
    | error e =>
      rw [hwrite] at h
      cases h
    | ok t₁ =>
      rw [hwrite] at h
      cases h
      obtain ⟨p, name, -, -, -, rfl⟩ := FileTree.writeFile_eq_ok.mp hwrite
      unfold FileTree.entryAt?
      split
      · exact ⟨_, rfl⟩
      · exact ⟨_, KeyMap.get?_insert_self _ _ t⟩

/-! ## The files of a package -/

/-- A directory on the way to the output directory, or one of the files in it. -/
def Part (directory : String) (artifacts : List Template.Artifact) (key : String) (e : Entry) : Prop :=
  Way directory key e ∨ ∃ a ∈ artifacts, Put (keyIn directory a.path) a.content key e

/-- The places of the files. -/
def Target (directory : String) (artifacts : List Template.Artifact) (key : String) : Prop :=
  ∃ a ∈ artifacts, key = keyIn directory a.path

/-- The directories that a file in a directory needs are on the way to that. -/
theorem way_of_parent {parent key : String} {e : Entry} (hname : PlainName path)
    (hparent : Path.parent? (Path.join directory path) = some parent) (h : Way parent key e) : Way directory key e := by
  obtain ⟨htop, hparts⟩ := FileTree.parts_parent hparent
  rw [FileTree.top_join directory hname] at htop
  rw [FileTree.parts_join directory hname, List.dropLast_concat] at hparts
  exact h.mono htop hparts

theorem writeArtifact_run (hname : PlainName a.path) (t : FileTree) :
    writeArtifact directory a t = ((match Path.parent? (Path.join directory a.path) with
      | some parent => ensureDirectory parent
      | none => pure ()) >>= fun _ => writeFile "create file" (Path.join directory a.path) a.content) t := by
  unfold writeArtifact
  rw [if_neg (by simp [hname.isAbsolute_eq_false])]
  cases hparent : Path.parent? (Path.join directory a.path) with
  | none => simp [hparent]
  | some parent => simp [hparent]

theorem outcome_writeArtifact (hname : PlainName a.path) (t : FileTree) :
    Outcome (· = keyIn directory a.path) (Part directory [a]) t (writeArtifact directory a t) := by
  rw [writeArtifact_run hname]
  refine Outcome.bind ?_ ?_
  · cases hparent : Path.parent? (Path.join directory a.path) with
    | none => exact .done (.refl t)
    | some parent =>
      refine (outcome_ensureDirectory t parent).mono (fun _ => False.elim) ?_
      intro key e hway
      exact .inl (way_of_parent hname hparent hway)
  · intro _ t₁ _
    have hwrite := outcome_writeFile "create file" (Path.join directory a.path) a.content t₁
    rw [FileTree.keyOf_join directory hname] at hwrite
    exact hwrite.mono (fun _ => id) fun _ _ h => .inr ⟨a, List.mem_singleton_self a, h⟩

theorem get?_of_writeArtifact (hname : PlainName a.path) (h : writeArtifact directory a t = .ok () t') :
    KeyMap.get? t' (keyIn directory a.path) = some (.file a.content.toUTF8) := by
  rw [writeArtifact_run hname, bind_eq_ok] at h
  obtain ⟨_, t₁, -, hwrite⟩ := h
  rw [← FileTree.keyOf_join directory hname]
  exact get?_of_writeFile hwrite

variable {artifacts : List Template.Artifact}

theorem writeArtifacts_run (directory : String) (artifacts : List Template.Artifact) (t : FileTree) :
    writeArtifacts directory artifacts t =
      (artifacts.forM (writeArtifact directory) >>= fun _ => pure artifacts.length) t := rfl

theorem outcome_forM (directory : String) (hnames : ∀ a ∈ artifacts, PlainName a.path) (t : FileTree) :
    Outcome (Target directory artifacts) (Part directory artifacts) t (artifacts.forM (writeArtifact directory) t) := by
  induction artifacts generalizing t with
  | nil => exact .done (.refl t)
  | cons a rest ih =>
    obtain ⟨hname, hrest⟩ := List.forall_mem_cons.mp hnames
    rw [List.forM_eq_forM, List.forM_cons]
    refine Outcome.bind ?_ ?_
    · refine (outcome_writeArtifact hname t).mono ?_ ?_
      · intro key hkey
        exact ⟨a, List.mem_cons_self, hkey⟩
      · intro key e hnew
        exact hnew.imp_right fun ⟨b, hb, hput⟩ => ⟨b, List.mem_singleton.mp hb ▸ List.mem_cons_self, hput⟩
    · intro _ t₁ _
      refine (ih hrest t₁).mono ?_ ?_
      · intro key ⟨b, hb, hkey⟩
        exact ⟨b, List.mem_cons_of_mem a hb, hkey⟩
      · intro key e hnew
        exact hnew.imp_right fun ⟨b, hb, hput⟩ => ⟨b, List.mem_cons_of_mem a hb, hput⟩

theorem outcome_writeArtifacts (directory : String) (hnames : ∀ a ∈ artifacts, PlainName a.path) (t : FileTree) :
    Outcome (Target directory artifacts) (Part directory artifacts) t (writeArtifacts directory artifacts t) := by
  rw [writeArtifacts_run]
  exact (outcome_forM directory hnames t).bind fun _ t₁ _ => .done (.refl t₁)

theorem get?_of_forM (hnames : ∀ a ∈ artifacts, PlainName a.path) (hpaths : (artifacts.map (·.path)).Nodup)
    (h : artifacts.forM (writeArtifact directory) t = .ok () t') :
    ∀ a ∈ artifacts, KeyMap.get? t' (keyIn directory a.path) = some (.file a.content.toUTF8) := by
  induction artifacts generalizing t with
  | nil =>
    intro a ha
    cases ha
  | cons a rest ih =>
    obtain ⟨hname, hrest⟩ := List.forall_mem_cons.mp hnames
    obtain ⟨hfresh, hpaths⟩ := List.nodup_cons.mp hpaths
    rw [List.forM_eq_forM, List.forM_cons, bind_eq_ok] at h
    obtain ⟨_, t₁, hfirst, hnext⟩ := h
    refine List.forall_mem_cons.mpr ⟨?_, ih hrest hpaths hnext⟩
    -- the files behind the first go to other places
    have hchanges := outcome_forM directory hrest t₁
    rw [List.forM_eq_forM, hnext] at hchanges
    refine hchanges.changes_of_ok.kept ?_ (get?_of_writeArtifact hname hfirst)
    intro ⟨b, hb, hkey⟩
    have hpath : a.path = b.path := FileTree.keyIn_inj.mp hkey
    exact hfresh (List.mem_map.mpr ⟨b, hb, hpath.symm⟩)

theorem get?_of_writeArtifacts {count : Nat} (hnames : ∀ a ∈ artifacts, PlainName a.path)
    (hpaths : (artifacts.map (·.path)).Nodup) (h : writeArtifacts directory artifacts t = .ok count t') :
    ∀ a ∈ artifacts, KeyMap.get? t' (keyIn directory a.path) = some (.file a.content.toUTF8) := by
  rw [writeArtifacts_run, bind_eq_ok] at h
  obtain ⟨_, t₁, hwrite, hpure⟩ := h
  cases hpure
  exact get?_of_forM hnames hpaths hwrite

end Output

end ClientGen
