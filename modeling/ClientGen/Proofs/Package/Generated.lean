import ClientGen.Generation
import ClientGen.Proofs.Package.Rendering

/-
  ClientGen.Proofs.Package.Generated — when a package is generated, and which files it has.

  Nothing fails behind the model but a package that is named by a keyword: a package is generated
  if the configuration passes its check, the model is built and its name is no keyword
  (`generate_ok_iff`). Its files are that of the client, that of the shared declarations and one
  for each grouping (`paths_of_generate`).
-/

namespace ClientGen

namespace Template

/-! ## Files -/

theorem renders_clientNodes (m : ApiModel) (doc : Document) (modulePath : String) (custom : KeyMap Json) :
    Renders (Go.templateData m doc modulePath custom) clientNodes := by
  have hown {key : String} {v : Json} (h : (key, v) ∈ Go.ownValues m doc modulePath) :
      lookup? (Go.templateData m doc modulePath custom) [key] = some v :=
    lookup?_of_get? (Go.get?_templateData h) rfl
  have hpackage : lookup? (Go.templateData m doc modulePath custom) ["package"] = some (.str m.package) :=
    hown (by simp [Go.ownValues])
  have htitle : lookup? (Go.templateData m doc modulePath custom) ["title"] = some (.str (Text.singleLine m.title)) :=
    hown (by simp [Go.ownValues])
  have hversion : lookup? (Go.templateData m doc modulePath custom) ["version"] = some (.str m.version) :=
    hown (by simp [Go.ownValues])
  have hdoc : lookup? (Go.templateData m doc modulePath custom) ["doc_lines"] =
      some (Json.ofTexts (Go.plainDoc m.description)) :=
    hown (by simp [Go.ownValues])
  have hurl : lookup? (Go.templateData m doc modulePath custom) ["base_url"] =
      some (.str (Go.literal (Go.baseUrl doc))) :=
    hown (by simp [Go.ownValues])
  have hagent : lookup? (Go.templateData m doc modulePath custom) ["user_agent"] =
      some (.str (Go.literal (m.package ++ "-go/" ++ m.version))) :=
    hown (by simp [Go.ownValues])
  have hservices : lookup? (Go.templateData m doc modulePath custom) ["services"] =
      some (.arr (m.groupings.map fun g =>
        Json.object [("name", .str g.name), ("type_name", .str (Go.serviceTypeName g))])) :=
    hown (by simp [Go.ownValues])
  simp [clientNodes, hpackage, htitle, hversion, hdoc, hurl, hagent, hservices, Json.get?_object,
    List.lookup]

variable {values : KeyMap Json} {nodes : List Node}

theorem renderFile_of_renders (path : String) (h : Renders values nodes) :
    ∃ a, renderFile path nodes values = .ok a ∧ a.path = path := by
  obtain ⟨content, hcontent⟩ := h
  refine ⟨⟨path, content⟩, ?_, rfl⟩
  rw [renderFile, hcontent]

theorem renderGroupings_total (m : ApiModel) {package : Json} (hpackage : KeyMap.get? values "package" = some package)
    (gs : List Grouping) :
    ∃ artifacts, renderGroupings values (gs.map fun g => (Go.groupingFile m g).toJson) = .ok artifacts ∧
      artifacts.map (·.path) = gs.map fun g => (Go.groupingFile m g).name := by
  induction gs with
  | nil => exact ⟨[], rfl, rfl⟩
  | cons g rest ih =>
    obtain ⟨more, hmore, hpaths⟩ := ih
    have hname : ((Go.groupingFile m g).toJson.get? "file_name").bind Json.str? = some (Go.groupingFile m g).name := by
      rw [Go.File.toJson, Json.get?_object (by simp)]
      rfl
    obtain ⟨a, ha, hpath⟩ := renderFile_of_renders (Go.groupingFile m g).name
      (renders_groupingNodes (hasFile_insert hpackage (Go.groupingFile m g)) rfl)
    refine ⟨a :: more, ?_, ?_⟩
    · simp only [List.map_cons, renderGroupings, hname, ha, hmore, bind, Except.bind, pure, Except.pure]
    · simp only [List.map_cons, hpath, hpaths]

/-- A package has all of its files. -/
theorem renderPackage_templateData (m : ApiModel) (doc : Document) (modulePath : String) (custom : KeyMap Json) :
    ∃ artifacts, renderPackage (.obj (Go.templateData m doc modulePath custom)) = .ok artifacts ∧
      artifacts.map (·.path) = "client.go" :: "types.go" :: m.groupings.map fun g => (Go.groupingFile m g).name := by
  have hpackage : KeyMap.get? (Go.templateData m doc modulePath custom) "package" = some (.str m.package) :=
    Go.get?_templateData (by simp [Go.ownValues])
  have hshared : KeyMap.get? (Go.templateData m doc modulePath custom) "shared" = some (Go.sharedFile m).toJson :=
    Go.get?_templateData (by simp [Go.ownValues])
  have hgroupings : KeyMap.get? (Go.templateData m doc modulePath custom) "groupings" =
      some (.arr (m.groupings.map fun g => (Go.groupingFile m g).toJson)) :=
    Go.get?_templateData (by simp [Go.ownValues])
  obtain ⟨client, hclient, hclientPath⟩ :=
    renderFile_of_renders "client.go" (renders_clientNodes m doc modulePath custom)
  obtain ⟨types, htypes, htypesPath⟩ := renderFile_of_renders "types.go"
    (renders_typesNodes (hasFile_insert hpackage (Go.sharedFile m)))
  obtain ⟨files, hfiles, hpaths⟩ := renderGroupings_total m hpackage m.groupings
  refine ⟨client :: types :: files, ?_, ?_⟩
  · simp only [renderPackage, Json.fields?, hclient, hshared, htypes, hgroupings, Option.bind_some, Json.items?, hfiles,
      bind, Except.bind, pure, Except.pure]
  · simp only [List.map_cons, hclientPath, htypesPath, hpaths]

end Template

/-! ## Packages -/

variable {fuel : Nat} {doc : Document} {s : Settings} {g : Generated}

/-- What is generated from a model. -/
theorem generate_of_build {model : ApiModel} {ds : List Diagnostic} (hcheck : s.check = .ok ())
    (hbuild : build fuel doc s.config = .ok (model, ds)) (hkeyword : Go.isKeyword model.package = false) :
    ∃ artifacts, generate fuel doc s = .ok ⟨artifacts, model, ds⟩ ∧
      artifacts.map (·.path) =
        "client.go" :: "types.go" :: model.groupings.map fun g => Name.snake g.name ++ "_api.go" := by
  obtain ⟨artifacts, hrender, hpaths⟩ := Template.renderPackage_templateData model doc s.modulePath s.custom
  refine ⟨artifacts, ?_, hpaths⟩
  simp [generate, packageValues, hcheck, hbuild, hkeyword, hrender, Except.mapError, bind, Except.bind, pure,
    Except.pure]

theorem build_of_generate (h : generate fuel doc s = .ok g) :
    s.check = .ok () ∧ build fuel doc s.config = .ok (g.model, g.diagnostics) ∧
      Go.isKeyword g.model.package = false := by
  cases hcheck : s.check with
  | error e =>
    rw [generate, hcheck] at h
    cases h
  | ok u =>
    cases hbuild : build fuel doc s.config with
    | error e =>
      rw [generate, hcheck, hbuild] at h
      cases h
    | ok built =>
      obtain ⟨model, ds⟩ := built
      cases hkeyword : Go.isKeyword model.package with
      | true =>
        simp only [generate, packageValues, hcheck, hbuild, hkeyword, Except.mapError, bind, Except.bind] at h
        cases h
      | false =>
        obtain ⟨artifacts, hgenerate, -⟩ := generate_of_build hcheck hbuild hkeyword
        rw [hgenerate] at h
        cases h
        exact ⟨rfl, rfl, hkeyword⟩

/-- Where a model is built, only its name can be in the way. -/
theorem generate_ok_iff :
    (∃ g, generate fuel doc s = .ok g) ↔
      s.check = .ok () ∧
        ∃ model ds, build fuel doc s.config = .ok (model, ds) ∧ Go.isKeyword model.package = false := by
  constructor
  · rintro ⟨g, h⟩
    obtain ⟨hcheck, hbuild, hkeyword⟩ := build_of_generate h
    exact ⟨hcheck, g.model, g.diagnostics, hbuild, hkeyword⟩
  · rintro ⟨hcheck, model, ds, hbuild, hkeyword⟩
    obtain ⟨artifacts, h, -⟩ := generate_of_build hcheck hbuild hkeyword
    exact ⟨_, h⟩

/-- The files of the client and of the shared declarations, and one for each grouping. -/
theorem paths_of_generate (h : generate fuel doc s = .ok g) :
    g.artifacts.map (·.path) =
      "client.go" :: "types.go" :: g.model.groupings.map fun g => Name.snake g.name ++ "_api.go" := by
  obtain ⟨hcheck, hbuild, hkeyword⟩ := build_of_generate h
  obtain ⟨artifacts, hgenerate, hpaths⟩ := generate_of_build hcheck hbuild hkeyword
  rw [hgenerate] at h
  have hartifacts : artifacts = g.artifacts := congrArg Generated.artifacts (Except.ok.inj h)
  exact hartifacts ▸ hpaths

end ClientGen
