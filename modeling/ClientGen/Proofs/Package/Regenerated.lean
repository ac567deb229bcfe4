import ClientGen.Proofs.Files.Again
import ClientGen.Proofs.Package.Paths

/-
  ClientGen.Proofs.Package.Regenerated — calls one after another with one output directory.

  A run needs the tree for its document only, so it is taken apart there (`execute_eq_perform`).
  Calls may have any requests and documents, and may fail at any step. A call writes over files of
  a package only, and makes nothing but those, the module file and directories on the way
  (`changes_perform`); no entry goes or changes its kind (`later_perform`).
  - So the module file is the user's once it is there, and every other file stays as it is.
  - What a call that succeeded has found or written is found again. The package is a function of
    the document and the settings, so the same call writes what is there (`perform_again`).
  - Where a call finds its document in the same tree, all of this holds of whole runs
    (`executions_keep_and_repeat`), as long as no package is written over that document.
-/

namespace ClientGen

open FileTree (Changes Later Way keyIn keyOf placeOf PlainName)

namespace Run

variable {fuel : Nat} {r : Request} {loaded : Except RunError Document} {directory : String} {t t' : FileTree}

/-- A run on what its loader gives: a document, or the failure to read one. -/
def perform (fuel : Nat) (r : Request) (loaded : Except RunError Document) : Run Report := do
  lift (r.check.mapError .request)
  let doc ← lift loaded
  output (Output.ensureDirectory r.directory)
  let created ← output (Output.writeIfAbsent (Path.join r.directory "go.mod") (moduleFile r.modulePath))
  let generated ← lift ((generate fuel doc r.settings).mapError .generation)
  let count ← output (Output.writeArtifacts r.directory generated.artifacts)
  return ⟨count, r.directory, generated.model.groupingNames, generated.diagnostics, created, r.formatter⟩

theorem execute_eq_perform (fuel : Nat) (r : Request) (t : FileTree) :
    execute fuel r t = perform fuel r (loadDocument t r.source) t := by
  unfold execute perform
  change EStateM.bind _ _ t = EStateM.bind _ _ t
  unfold EStateM.bind
  cases hcheck : lift (r.check.mapError .request) t with
  | error e t₁ => rfl
  | ok u t₁ =>
    obtain ⟨-, rfl⟩ := lift_eq_ok.mp hcheck
    rfl

/-- The steps of a run that succeeds. -/
theorem perform_eq_ok {report : Report} :
    perform fuel r loaded t = .ok report t' ↔
      ∃ doc t₁ created t₂ g count, r.check = .ok () ∧ loaded = .ok doc ∧
        Output.ensureDirectory r.directory t = .ok () t₁ ∧
        Output.writeIfAbsent (Path.join r.directory "go.mod") (moduleFile r.modulePath) t₁ = .ok created t₂ ∧
        generate fuel doc r.settings = .ok g ∧ Output.writeArtifacts r.directory g.artifacts t₂ = .ok count t' ∧
        report = ⟨count, r.directory, g.model.groupingNames, g.diagnostics, created, r.formatter⟩ := by
  unfold perform
  constructor
  · intro h
    obtain ⟨u, t₀, hcheck, hchecked⟩ := bind_eq_ok.mp h
    obtain ⟨doc, t₁, hload, hloaded⟩ := bind_eq_ok.mp hchecked
    obtain ⟨u', t₂, hensure, hensured⟩ := bind_eq_ok.mp hloaded
    obtain ⟨created, t₃, hmodule, hprepared⟩ := bind_eq_ok.mp hensured
    obtain ⟨g, t₄, hgenerate, hgenerated⟩ := bind_eq_ok.mp hprepared
    obtain ⟨count, t₅, hwrite, hreport⟩ := bind_eq_ok.mp hgenerated
    obtain ⟨hvalid, rfl⟩ := lift_eq_ok.mp hcheck
    obtain ⟨hdoc, rfl⟩ := lift_eq_ok.mp hload
    obtain ⟨hpackage, rfl⟩ := lift_eq_ok.mp hgenerate
    cases hreport
    exact ⟨doc, t₂, created, _, g, count, mapError_eq_ok.mp hvalid, hdoc, output_eq_ok.mp hensure,
      output_eq_ok.mp hmodule, mapError_eq_ok.mp hpackage, output_eq_ok.mp hwrite, rfl⟩
  · intro h
    obtain ⟨doc, t₁, created, t₂, g, count, hcheck, hload, hensure, hmodule, hgenerate, hwrite, rfl⟩ := h
    refine bind_eq_ok.mpr ⟨(), t, lift_eq_ok.mpr ⟨mapError_eq_ok.mpr hcheck, rfl⟩, ?_⟩
    refine bind_eq_ok.mpr ⟨doc, t, lift_eq_ok.mpr ⟨hload, rfl⟩, ?_⟩
    refine bind_eq_ok.mpr ⟨(), t₁, output_eq_ok.mpr hensure, ?_⟩
    refine bind_eq_ok.mpr ⟨created, t₂, output_eq_ok.mpr hmodule, ?_⟩
    refine bind_eq_ok.mpr ⟨g, t₂, lift_eq_ok.mpr ⟨mapError_eq_ok.mpr hgenerate, rfl⟩, ?_⟩
    exact bind_eq_ok.mpr ⟨count, t', output_eq_ok.mpr hwrite, rfl⟩

theorem stateOf_lift (x : Except RunError α) (t : FileTree) : stateOf (lift x t) = t := by
  cases x with
  | ok a => rfl
  | error e => rfl

theorem stateOf_output (step : Output α) (t : FileTree) : stateOf (output step t) = stateOf (step t) := by
  unfold output
  cases step t with
  | ok a t' => rfl
  | error e t' => rfl

/-- What the steps on the file system do, one after another, a run does. -/
theorem perform_induction {R : FileTree → FileTree → Prop} (hrefl : ∀ t, R t t)
    (htrans : ∀ {t₁ t₂ t₃}, R t₁ t₂ → R t₂ t₃ → R t₁ t₃)
    (hensure : ∀ t, R t (stateOf (Output.ensureDirectory r.directory t)))
    (hmodule : ∀ t, R t
      (stateOf (Output.writeIfAbsent (Path.join r.directory "go.mod") (moduleFile r.modulePath) t)))
    (hwrite : ∀ doc g, generate fuel doc r.settings = .ok g → ∀ t,
      R t (stateOf (Output.writeArtifacts r.directory g.artifacts t))) :
    R t (stateOf (perform fuel r loaded t)) := by
  have hlift {α : Type} (x : Except RunError α) (t : FileTree) : R t (stateOf (lift x t)) := by
    rw [stateOf_lift]
    exact hrefl t
  have houtput {α : Type} {step : Output α} {t : FileTree} (h : R t (stateOf (step t))) :
      R t (stateOf (output step t)) := by
    rwa [stateOf_output]
  unfold perform
  refine stateOf_bind htrans (hlift _ t) fun _ t₁ _ => ?_
  refine stateOf_bind htrans (hlift _ t₁) fun doc t₂ _ => ?_
  refine stateOf_bind htrans (houtput (hensure t₂)) fun _ t₃ _ => ?_
  refine stateOf_bind htrans (houtput (hmodule t₃)) fun created t₄ _ => ?_
  refine stateOf_bind htrans (hlift _ t₄) fun g t₅ hgenerate => ?_
  obtain ⟨hgenerate, -⟩ := lift_eq_ok.mp hgenerate
  exact stateOf_bind htrans (houtput (hwrite doc g (mapError_eq_ok.mp hgenerate) t₅)) fun _ t₆ _ => hrefl t₆

/-! ## What calls change -/

/-- A name that a file of some package has: no slash, backslash or further dot is in it. -/
def IsPackageFile (name : String) : Prop :=
  name = "client.go" ∨ name = "types.go" ∨ ∃ stem, FileStem (stem ++ "_api") ∧ name = stem ++ "_api.go"

theorem IsPackageFile.exists_stem {name : String} (h : IsPackageFile name) :
    ∃ stem, FileStem stem ∧ name = stem ++ ".go" := by
  rcases h with rfl | rfl | ⟨stem, hstem, rfl⟩
  · exact ⟨"client", fileStem_client, rfl⟩
  · exact ⟨"types", fileStem_types, rfl⟩
  · refine ⟨stem ++ "_api", hstem, ?_⟩
    rw [String.append_assoc]
    rfl

theorem isPackageFile_of_generate {doc : Document} {s : Settings} {g : Generated} (h : generate fuel doc s = .ok g) :
    ∀ a ∈ g.artifacts, IsPackageFile a.path := by
  intro a ha
  have hpath : a.path ∈ g.artifacts.map (·.path) := List.mem_map_of_mem ha
  rw [paths_of_generate h, List.mem_cons, List.mem_cons, List.mem_map] at hpath
  rcases hpath with hclient | htypes | ⟨grouping, -, hgrouping⟩
  · exact .inl hclient
  · exact .inr (.inl htypes)
  · exact .inr (.inr ⟨_, fileStem_snake grouping.name, hgrouping.symm⟩)

theorem not_isPackageFile_goMod : ¬ IsPackageFile "go.mod" := by
  intro h
  obtain ⟨stem, -, hname⟩ := h.exists_stem
  exact FileStem.ne_goMod stem hname.symm

/-- The place of a file that a package may have in a directory. -/
def PackagePlace (directory key : String) : Prop := ∃ name, IsPackageFile name ∧ key = keyIn directory name

/-- A file of a package is directly in the directory, and not in one below it. -/
theorem PackagePlace.dropLast_segments {directory key : String} (h : PackagePlace directory key) :
    (Path.segments key).dropLast = placeOf directory := by
  obtain ⟨name, hname, rfl⟩ := h
  obtain ⟨stem, hstem, rfl⟩ := hname.exists_stem
  rw [FileTree.segments_keyIn directory hstem.plainName, List.dropLast_concat]

/-- What is new after a call: directories on the way, and the module file or files of a package. -/
def Made (directory key : String) (e : Entry) : Prop :=
  Way directory key e ∨ (key = keyIn directory "go.mod" ∨ PackagePlace directory key) ∧ ∃ content, e = .file content

theorem changes_perform (fuel : Nat) (r : Request) (loaded : Except RunError Document) (t : FileTree) :
    Changes (PackagePlace r.directory) (Made r.directory) t (stateOf (perform fuel r loaded t)) := by
  refine perform_induction .refl .trans ?_ ?_ ?_
  · intro t
    exact (Output.outcome_ensureDirectory t r.directory).changes.mono (fun _ => False.elim) fun _ _ => .inl
  · intro t
    have h := (Output.outcome_writeIfAbsent (Path.join r.directory "go.mod") (moduleFile r.modulePath) t).changes
    rw [FileTree.keyOf_join r.directory plainName_goMod] at h
    refine h.mono (fun _ => False.elim) ?_
    intro key e hput
    exact .inr ⟨.inl hput.1, _, hput.2⟩
  · intro doc g hgenerate t
    have hplace {a : Template.Artifact} (ha : a ∈ g.artifacts) : PackagePlace r.directory (keyIn r.directory a.path) :=
      ⟨a.path, isPackageFile_of_generate hgenerate a ha, rfl⟩
    refine (Output.outcome_writeArtifacts r.directory (plainName_of_generate hgenerate) t).changes.mono ?_ ?_
    · intro key htarget
      obtain ⟨a, ha, rfl⟩ := htarget
      exact hplace ha
    · intro key e hpart
      refine hpart.imp_right ?_
      intro ⟨a, ha, hkey, he⟩
      exact ⟨.inr (hkey ▸ hplace ha), _, he⟩

theorem later_perform (fuel : Nat) (r : Request) (loaded : Except RunError Document) (t : FileTree) :
    Later t (stateOf (perform fuel r loaded t)) := by
  refine perform_induction .refl .trans ?_ ?_ ?_
  · exact Output.later_ensureDirectory r.directory
  · exact Output.later_writeIfAbsent _ _
  · intro doc g hgenerate t
    exact Output.later_writeArtifacts (plainName_of_generate hgenerate) r.directory t

/-- A call with an output directory, whatever it is asked for and whether or not it succeeds. -/
inductive Call (directory : String) (t : FileTree) : FileTree → Prop
  | run (fuel : Nat) (r : Request) (loaded : Except RunError Document) (h : r.directory = directory) :
      Call directory t (stateOf (perform fuel r loaded t))

theorem Call.of_ok {report : Report} (h : perform fuel r loaded t = .ok report t') : Call r.directory t t' := by
  have hcall : Call r.directory t (stateOf (perform fuel r loaded t)) := .run fuel r loaded rfl
  rwa [h] at hcall

theorem call_execute (fuel : Nat) (r : Request) (t : FileTree) : Call r.directory t (stateOf (execute fuel r t)) := by
  rw [execute_eq_perform]
  exact .run fuel r (loadDocument t r.source) rfl

abbrev Calls (directory : String) : FileTree → FileTree → Prop := Relation.ReflTransGen (Call directory)

theorem changes_of_calls (h : Calls directory t t') : Changes (PackagePlace directory) (Made directory) t t' := by
  induction h with
  | refl => exact .refl t
  | tail _ hcall ih =>
    cases hcall with
    | run fuel r loaded hdirectory =>
      subst hdirectory
      exact ih.trans (changes_perform fuel r loaded _)

theorem later_of_calls (h : Calls directory t t') : Later t t' := by
  induction h with
  | refl => exact .refl t
  | tail _ hcall ih =>
    cases hcall with
    | run fuel r loaded hdirectory => exact ih.trans (later_perform fuel r loaded _)

theorem module_of_calls (h : Calls directory t t') {e : Entry}
    (hmodule : KeyMap.get? t (keyIn directory "go.mod") = some e) : KeyMap.get? t' (keyIn directory "go.mod") = some e := by
  refine (changes_of_calls h).kept ?_ hmodule
  intro ⟨name, hname, hkey⟩
  exact not_isPackageFile_goMod (FileTree.keyIn_inj.mp hkey ▸ hname)

theorem file_iff_of_calls (h : Calls directory t t') {key : String} (hmodule : key ≠ keyIn directory "go.mod")
    (hplace : ¬ PackagePlace directory key) (content : ByteArray) :
    KeyMap.get? t' key = some (.file content) ↔ KeyMap.get? t key = some (.file content) := by
  constructor
  · intro hafter
    rcases (changes_of_calls h).made hafter with hbefore | hway | ⟨hmade, -⟩
    · exact hbefore
    · exact absurd hway.1 nofun
    · exact absurd hmade (not_or.mpr ⟨hmodule, hplace⟩)
  · exact (changes_of_calls h).kept hplace

/-! ## The same call again -/

/-- A call on a tree where some package was written, with files of these names. -/
theorem perform_over {doc : Document} {g : Generated} {created : Bool} {count : Nat} {content : String}
    {artifacts : List Template.Artifact} {t₁ t₂ t₃ : FileTree}
    (hensure : Output.ensureDirectory r.directory t = .ok () t₁)
    (hmodule : Output.writeIfAbsent (Path.join r.directory "go.mod") content t₁ = .ok created t₂)
    (hwrite : Output.writeArtifacts r.directory artifacts t₂ = .ok count t₃) (hlater : Later t₃ t')
    (hcheck : r.check = .ok ()) (hgenerate : generate fuel doc r.settings = .ok g)
    (hpaths : g.artifacts.map (·.path) = artifacts.map (·.path)) :
    perform fuel r (.ok doc) t' =
      .ok ⟨g.artifacts.length, r.directory, g.model.groupingNames, g.diagnostics, false, r.formatter⟩
        (Output.withFiles r.directory g.artifacts t') := by
  have hnames : ∀ a ∈ artifacts, PlainName a.path := by
    intro a ha
    have hpath : a.path ∈ g.artifacts.map (·.path) := hpaths ▸ List.mem_map_of_mem ha
    obtain ⟨b, hb, hpath⟩ := List.mem_map.mp hpath
    exact hpath ▸ plainName_of_generate hgenerate b hb
  have hwritten : Later t₂ t₃ := by
    have h := Output.later_writeArtifacts hnames r.directory t₂
    rwa [hwrite] at h
  have hprepared : Later t₁ t₂ := by
    have h := Output.later_writeIfAbsent (Path.join r.directory "go.mod") content t₁
    rwa [hmodule] at h
  refine perform_eq_ok.mpr ⟨doc, t', false, t', g, _, hcheck, rfl, ?_, ?_, hgenerate, ?_, rfl⟩
  · exact Output.ensureDirectory_again hensure (hprepared.trans (hwritten.trans hlater))
  · exact Output.writeIfAbsent_again hmodule (hwritten.trans hlater)
  · exact Output.writeArtifacts_again hnames hwrite hlater hpaths

theorem perform_again {report : Report} (h : perform fuel r loaded t = .ok report t') :
    ∃ t₁, perform fuel r loaded t' = .ok { report with moduleCreated := false } t₁ ∧
      ∀ key, KeyMap.get? t₁ key = KeyMap.get? t' key := by
  obtain ⟨doc, t₁, created, t₂, g, count, hcheck, rfl, hensure, hmodule, hgenerate, hwrite, rfl⟩ := perform_eq_ok.mp h
  have hagain := perform_over hensure hmodule hwrite (.refl t') hcheck hgenerate rfl
  obtain ⟨-, rfl⟩ := Output.writeArtifacts_eq_ok.mp hwrite
  exact ⟨_, hagain, Output.get?_withFiles_of_writeArtifacts (plainName_of_generate hgenerate) hwrite⟩

/-- After any calls with an output directory the module file that was there is as it was, and so is every other file but
those of a package in that directory; none is made elsewhere. A call that succeeds can be made again: it finds the
module file, and leaves every entry as it is. -/
theorem calls_keep_and_repeat (h : Calls directory t t') :
    (∀ e, KeyMap.get? t (keyIn directory "go.mod") = some e → KeyMap.get? t' (keyIn directory "go.mod") = some e) ∧
      (∀ key content, key ≠ keyIn directory "go.mod" → ¬ PackagePlace directory key →
        (KeyMap.get? t' key = some (.file content) ↔ KeyMap.get? t key = some (.file content))) ∧
      ∀ fuel r loaded report t₁, perform fuel r loaded t' = .ok report t₁ →
        ∃ t₂, perform fuel r loaded t₁ = .ok { report with moduleCreated := false } t₂ ∧
          ∀ key, KeyMap.get? t₂ key = KeyMap.get? t₁ key := by
  refine ⟨fun e => module_of_calls h, ?_, ?_⟩
  · intro key content hmodule hplace
    exact file_iff_of_calls h hmodule hplace content
  · intro fuel r loaded report t₁ hsuccess
    exact perform_again hsuccess

/-! ## Executions -/

/-- Executions of any requests for one output directory, one after another. -/
abbrev Executions (directory : String) : FileTree → FileTree → Prop :=
  Relation.ReflTransGen fun t t' => ∃ fuel r, r.directory = directory ∧ t' = stateOf (execute fuel r t)

theorem calls_of_executions (h : Executions directory t t') : Calls directory t t' := by
  induction h with
  | refl => exact .refl
  | tail _ hlast ih =>
    obtain ⟨fuel, r, rfl, rfl⟩ := hlast
    exact ih.tail (call_execute fuel r _)

/-- A document that is no file of a package is read again as it was. -/
theorem loadDocument_of_calls (h : Calls directory t t') {source : String} {doc : Document}
    (hsource : ¬ PackagePlace directory (keyOf source)) (hload : loadDocument t source = .ok doc) :
    loadDocument t' source = .ok doc := by
  obtain ⟨text, hread, hdoc⟩ := loadDocument_eq_ok.mp hload
  exact loadDocument_eq_ok.mpr ⟨text, FileTree.readText_kept (changes_of_calls h) (later_of_calls h) hsource hread, hdoc⟩

theorem execute_again {report : Report} (hsource : ¬ PackagePlace r.directory (keyOf r.source))
    (h : execute fuel r t = .ok report t') :
    ∃ t₁, execute fuel r t' = .ok { report with moduleCreated := false } t₁ ∧
      ∀ key, KeyMap.get? t₁ key = KeyMap.get? t' key := by
  rw [execute_eq_perform] at h
  obtain ⟨doc, -, -, -, -, -, -, hload, -⟩ := perform_eq_ok.mp h
  have hcall : Calls r.directory t t' := .single (.of_ok h)
  rw [execute_eq_perform, loadDocument_of_calls hcall hsource hload, ← hload]
  exact perform_again h

/-- After any executions for an output directory the module file that was there is as it was, and so is every file that
is not directly in that directory. One that succeeds can be repeated with the same request, unless it reads its document
from a file that it writes: it leaves every entry as it is and makes no module file. -/
theorem executions_keep_and_repeat (h : Executions directory t t') :
    (∀ e, KeyMap.get? t (keyIn directory "go.mod") = some e → KeyMap.get? t' (keyIn directory "go.mod") = some e) ∧
      (∀ key content, (Path.segments key).dropLast ≠ placeOf directory →
        (KeyMap.get? t' key = some (.file content) ↔ KeyMap.get? t key = some (.file content))) ∧
      ∀ fuel r report t₁, ¬ PackagePlace r.directory (keyOf r.source) → execute fuel r t' = .ok report t₁ →
        ∃ t₂, execute fuel r t₁ = .ok { report with moduleCreated := false } t₂ ∧
          ∀ key, KeyMap.get? t₂ key = KeyMap.get? t₁ key := by
  have hcalls := calls_of_executions h
  refine ⟨fun e => module_of_calls hcalls, ?_, ?_⟩
  · intro key content helsewhere
    refine file_iff_of_calls hcalls ?_ (fun hplace => helsewhere hplace.dropLast_segments) content
    rintro rfl
    rw [FileTree.segments_keyIn directory plainName_goMod, List.dropLast_concat] at helsewhere
    exact helsewhere rfl
  · intro fuel r report t₁ hsource hsuccess
    exact execute_again hsource hsuccess

/-! ## Over an older package -/

def olderFiles : List Template.Artifact :=
  [⟨"client.go", ""⟩, ⟨"types.go", ""⟩, ⟨"pets_api.go", ""⟩, ⟨"pets_api.go", ""⟩]

def writeOlder : Output Nat := do
  Output.ensureDirectory "out"
  let _ ← Output.writeIfAbsent "out/go.mod" "module older"
  Output.writeArtifacts "out" olderFiles

def olderPackage : FileTree := stateOf (writeOlder [])

def petstoreRequest : Request := ⟨"api.json", "out", "example.com/petstore", "petstore", some "Petstore", none, true⟩

theorem petstoreRequest_succeeds (hlater : Later olderPackage t') :
    ∃ report t₁, perform 1 petstoreRequest (.ok twoCases) t' = .ok report t₁ := by
  obtain ⟨g, hgenerate, hpaths⟩ := @generate_of_files twoCases ["pets_api.go", "pets_api.go"] (by decide +kernel)
  obtain ⟨count, hwritten⟩ := eq_ok_of_errorOf? (show errorOf? (writeOlder []) = none by decide +kernel)
  obtain ⟨u, t₁, hensure, hensured⟩ := bind_eq_ok.mp hwritten
  obtain ⟨created, t₂, hmodule, hwrite⟩ := bind_eq_ok.mp hensured
  have hcheck : petstoreRequest.check = .ok () := by decide +kernel
  exact ⟨_, _, perform_over hensure hmodule hwrite hlater hcheck hgenerate hpaths⟩

/-- After a call that fails another writes two files to one place over the older package, whose module file stays. Made
again, it changes nothing. -/
theorem calls_keep_and_repeat_olderPackage :
    ∃ t t₁ t₂ report e, t = stateOf (perform 1 keywordRequest (.ok twoCases) olderPackage) ∧
      errorOf? (perform 1 keywordRequest (.ok twoCases) olderPackage) = some (.generation (.config (.keyword "func"))) ∧
      perform 1 petstoreRequest (.ok twoCases) t = .ok report t₁ ∧
      KeyMap.get? olderPackage (keyIn "out" "go.mod") = some e ∧ KeyMap.get? t₁ (keyIn "out" "go.mod") = some e ∧
      perform 1 petstoreRequest (.ok twoCases) t₁ = .ok { report with moduleCreated := false } t₂ ∧
      ∀ key, KeyMap.get? t₂ key = KeyMap.get? t₁ key := by
  have hfailed : Calls "out" olderPackage (stateOf (perform 1 keywordRequest (.ok twoCases) olderPackage)) :=
    .single (.run 1 keywordRequest (.ok twoCases) rfl)
  obtain ⟨report, t₁, hsuccess⟩ := petstoreRequest_succeeds (later_of_calls hfailed)
  obtain ⟨t₂, hagain, hsame⟩ := (calls_keep_and_repeat hfailed).2.2 1 petstoreRequest (.ok twoCases) report t₁ hsuccess
  have hboth : Calls "out" olderPackage t₁ := hfailed.tail (.of_ok hsuccess)
  have hmodule : KeyMap.get? olderPackage (keyIn "out" "go.mod") ≠ none := by
    rw [Ne, KeyMap.get?_eq_none_iff, not_not]
    decide +kernel
  obtain ⟨e, he⟩ := Option.ne_none_iff_exists'.mp hmodule
  have hkept := (calls_keep_and_repeat hboth).1 e he
  exact ⟨_, t₁, t₂, report, e, rfl, by decide +kernel, hsuccess, he, hkept, hagain, hsame⟩

end Run

end ClientGen
