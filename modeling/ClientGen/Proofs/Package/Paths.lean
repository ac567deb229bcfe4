import ClientGen.Proofs.Files.Failure
import ClientGen.Proofs.Grouping.Methods
import ClientGen.Proofs.Names.Word
import ClientGen.Proofs.Package.Generated

/-
  ClientGen.Proofs.Package.Paths — where the files of a package go.

  The path of a file is a stem and `.go`. The stem of a grouping is its name in snake form and
  `_api`, so it has no slash, backslash or dot, whatever the tag is. Every path is then the name of
  a file in the output directory, and none is that of the module file (`generated_paths_contained`).
  Tags that have the same snake form share a path, and the file of one is lost; all files survive
  if there are no such tags (`generated_paths_distinct_iff`).
-/

namespace ClientGen

open FileTree (Changes keyIn PlainName)

/-! ## Stems -/

/-- A stem makes a name of a Go file. -/
structure FileStem (stem : String) : Prop where
  nonempty : stem ≠ ""
  noSlash : '/' ∉ stem.toList
  noBackslash : '\\' ∉ stem.toList
  noDot : '.' ∉ stem.toList

namespace FileStem

variable {stem : String}

theorem go_ne_of_short (stem : String) {other : String} (h : other.length < 3) : stem ++ ".go" ≠ other := by
  rintro rfl
  have hgo : ".go".length = 3 := rfl
  rw [String.length_append] at h
  omega

theorem plainName (h : FileStem stem) : PlainName (stem ++ ".go") where
  nonempty := by simp
  noSlash := by
    simp only [String.toList_append, List.mem_append, not_or]
    exact ⟨h.noSlash, by decide⟩
  notSelf := go_ne_of_short stem (by decide)
  notUp := go_ne_of_short stem (by decide)

theorem ne_goMod (stem : String) : stem ++ ".go" ≠ "go.mod" := by
  intro heq
  have hlast := congrArg (fun s : String => s.toList.getLast?) heq
  simp at hlast

end FileStem

theorem fileStem_client : FileStem "client" := ⟨by decide, by decide, by decide, by decide⟩

theorem fileStem_types : FileStem "types" := ⟨by decide, by decide, by decide, by decide⟩

/-- Nothing but underscores stands between the words of a name in snake form. -/
theorem fileStem_snake (name : String) : FileStem (Name.snake name ++ "_api") := by
  have hclean {d : Char} (hd : Separates d) (hne : d ≠ '_') (hapi : d ∉ "_api".toList) :
      d ∉ (Name.snake name ++ "_api").toList := by
    rw [String.toList_append, Name.snake, String.toList_ofList, List.mem_append, not_or]
    exact ⟨hd.not_mem_snakeChars hne name.toList, hapi⟩
  constructor
  case nonempty =>
    intro heq
    have hlength := congrArg String.length heq
    simp at hlength
  case noSlash => exact hclean (by decide) (by decide) (by decide)
  case noBackslash => exact hclean (by decide) (by decide) (by decide)
  case noDot => exact hclean (by decide) (by decide) (by decide)

/-! ## Paths -/

variable {fuel : Nat} {doc : Document} {s : Settings} {g : Generated}

theorem stem_of_path (h : generate fuel doc s = .ok g) :
    ∀ a ∈ g.artifacts, ∃ stem, a.path = stem ++ ".go" ∧ FileStem stem := by
  intro a ha
  have hpath : a.path ∈ g.artifacts.map (·.path) := List.mem_map_of_mem ha
  rw [paths_of_generate h, List.mem_cons, List.mem_cons, List.mem_map] at hpath
  rcases hpath with hclient | htypes | ⟨grouping, -, hgrouping⟩
  · exact ⟨"client", hclient, fileStem_client⟩
  · exact ⟨"types", htypes, fileStem_types⟩
  · refine ⟨Name.snake grouping.name ++ "_api", ?_, fileStem_snake grouping.name⟩
    rw [← hgrouping, String.append_assoc]
    rfl

theorem plainName_of_generate (h : generate fuel doc s = .ok g) : ∀ a ∈ g.artifacts, PlainName a.path := by
  intro a ha
  obtain ⟨stem, hpath, hstem⟩ := stem_of_path h a ha
  exact hpath ▸ hstem.plainName

/-- No file of a package is the module file. -/
theorem goMod_not_target (h : generate fuel doc s = .ok g) (directory : String) :
    ¬ Output.Target directory g.artifacts (keyIn directory "go.mod") := by
  rintro ⟨a, ha, hkey⟩
  obtain ⟨stem, hpath, -⟩ := stem_of_path h a ha
  exact FileStem.ne_goMod stem (hpath ▸ (FileTree.keyIn_inj.mp hkey).symm)

/-- Every path is the name of a Go file. Writing the files refuses none of them as absolute, makes nothing but
directories on the way to the output directory and files directly in it, changes only those, and leaves the module file
as it is. -/
theorem generated_paths_contained (h : generate fuel doc s = .ok g) :
    (∀ a ∈ g.artifacts, ∃ stem, a.path = stem ++ ".go" ∧ FileStem stem) ∧
      ∀ directory t,
        (∀ path t', Output.writeArtifacts directory g.artifacts t ≠ .error (.notRelative path) t') ∧
          Changes (Output.Target directory g.artifacts) (Output.Part directory g.artifacts) t
            (stateOf (Output.writeArtifacts directory g.artifacts t)) ∧
          ∀ e, KeyMap.get? t (keyIn directory "go.mod") = some e →
            KeyMap.get? (stateOf (Output.writeArtifacts directory g.artifacts t)) (keyIn directory "go.mod") =
              some e := by
  refine ⟨stem_of_path h, ?_⟩
  intro directory t
  have houtcome := Output.outcome_writeArtifacts directory (plainName_of_generate h) t
  refine ⟨houtcome.relative, houtcome.changes, ?_⟩
  intro e hmodule
  exact houtcome.changes.kept (goMod_not_target h directory) hmodule

/-- The tag is a path upwards, and its letters change their number with their case. -/
def pathTag : Document :=
  { openapi := "3.0.3", info := ⟨"t", "1", none⟩, servers := [], tags := []
    paths :=
      [("/a", ⟨none, none, none, [(.get, ⟨["../İ/..\\.ß"], none, none, some "f", [], none, [], false, []⟩)], []⟩)]
    components := ⟨[], [], [], []⟩ }

def petstore : Settings := ⟨⟨"petstore", "Petstore"⟩, "example.com/petstore", []⟩

theorem petstore_check : petstore.check = .ok () := by decide +kernel

/-- A package whose model is built and passes a test. -/
theorem generate_of_passes {fuel : Nat} {doc : Document} {test : ApiModel → Bool}
    (h : (build fuel doc petstore.config).toOption.any (fun r => test r.1 && !Go.isKeyword r.1.package) = true) :
    ∃ g, generate fuel doc petstore = .ok g ∧ test g.model = true := by
  obtain ⟨model, ds, hbuild, hpasses⟩ :=
    @Resolve.exists_build_of_passes doc fuel petstore.config (fun m _ => test m && !Go.isKeyword m.package) h
  rw [Bool.and_eq_true, Bool.not_eq_true'] at hpasses
  obtain ⟨artifacts, hgenerate, -⟩ := generate_of_build petstore_check hbuild hpasses.2
  exact ⟨_, hgenerate, hpasses.1⟩

/-- The files of a package whose model is built and whose groupings have these files. -/
theorem generate_of_files {doc : Document} {files : List String}
    (h : (build 1 doc petstore.config).toOption.any (fun r =>
      r.1.groupings.map (fun g => Name.snake g.name ++ "_api.go") = files && !Go.isKeyword r.1.package) = true) :
    ∃ g, generate 1 doc petstore = .ok g ∧ g.artifacts.map (·.path) = "client.go" :: "types.go" :: files := by
  obtain ⟨g, hgenerate, hfiles⟩ :=
    @generate_of_passes 1 doc (fun m => m.groupings.map (fun g => Name.snake g.name ++ "_api.go") = files) h
  refine ⟨g, hgenerate, ?_⟩
  rw [paths_of_generate hgenerate, of_decide_eq_true hfiles]

theorem generated_paths_contained_pathTag : ∃ g, generate 1 pathTag petstore = .ok g ∧
    g.artifacts.map (·.path) = ["client.go", "types.go", "i_ss_api.go"] ∧
    (∀ a ∈ g.artifacts, ∃ stem, a.path = stem ++ ".go" ∧ FileStem stem) ∧
    ∀ path t', Output.writeArtifacts "out" g.artifacts [] ≠ .error (.notRelative path) t' := by
  obtain ⟨g, h, hpaths⟩ := @generate_of_files pathTag ["i_ss_api.go"] (by decide +kernel)
  obtain ⟨hstems, hwritten⟩ := generated_paths_contained h
  exact ⟨g, h, hpaths, hstems, (hwritten "out" []).1⟩

/-! ## Tags with one file -/

/-- The file of the grouping of a tag. -/
def tagFile (tag : String) : String := Name.snake (Name.proper tag) ++ "_api.go"

/-- Tags in use that have one file are one tag. -/
def Document.TagsApart (doc : Document) : Prop :=
  ∀ e ∈ doc.endpoints, ∀ e' ∈ doc.endpoints, tagFile e.operation.tag = tagFile e'.operation.tag →
    e.operation.tag = e'.operation.tag

theorem tagFile_ne {other : String} (h : other.toList.reverse.take 7 ≠ "_api.go".toList.reverse) (tag : String) :
    tagFile tag ≠ other := by
  rintro rfl
  apply h
  rw [tagFile, String.toList_append, List.reverse_append, List.take_append_of_le_length (by decide)]
  rfl

theorem grouped_of_generate (h : generate fuel doc s = .ok g) :
    Grouped doc fuel g.model ∧ ∀ grouping ∈ g.model.groupings, grouping.name = Name.proper grouping.tag :=
  Resolve.groupings_of_build (build_of_generate h).2.1

theorem paths_of_tags (h : generate fuel doc s = .ok g) :
    g.artifacts.map (·.path) = "client.go" :: "types.go" :: (g.model.groupings.map (·.tag)).map tagFile := by
  have hfiles : g.model.groupings.map (fun g => Name.snake g.name ++ "_api.go") =
      g.model.groupings.map (tagFile ∘ (·.tag)) := by
    refine List.map_congr_left ?_
    intro grouping hgrouping
    rw [(grouped_of_generate h).2 grouping hgrouping]
    rfl
  rw [paths_of_generate h, List.map_map, hfiles]

theorem nodup_paths_iff (h : generate fuel doc s = .ok g) : (g.artifacts.map (·.path)).Nodup ↔ doc.TagsApart := by
  obtain ⟨hgrouped, -⟩ := grouped_of_generate h
  have hclient : "client.go" ∉ "types.go" :: (g.model.groupings.map (·.tag)).map tagFile := by
    rw [List.mem_cons, not_or, List.mem_map]
    exact ⟨by decide, fun ⟨tag, _, hfile⟩ => tagFile_ne (by decide) tag hfile⟩
  have htypes : "types.go" ∉ (g.model.groupings.map (·.tag)).map tagFile := by
    rw [List.mem_map]
    exact fun ⟨tag, _, hfile⟩ => tagFile_ne (by decide) tag hfile
  have htags : ((g.model.groupings.map (·.tag)).map tagFile).Nodup ↔ doc.TagsApart := hgrouped.nodup_map_tags_iff tagFile
  rw [paths_of_tags h, List.nodup_cons, List.nodup_cons, htags]
  exact ⟨fun hall => hall.2.2, fun hapart => ⟨hclient, htypes, hapart⟩⟩

/-- Beside the files of the client and of the shared declarations, which no tag takes, every tag in use has a file. The
paths differ if and only if no two tags in use have one file; then every file is there when all have been written. -/
theorem generated_paths_distinct_iff (h : generate fuel doc s = .ok g) :
    g.artifacts.map (·.path) = "client.go" :: "types.go" :: (g.model.groupings.map (·.tag)).map tagFile ∧
      (∀ tag, tagFile tag ≠ "client.go" ∧ tagFile tag ≠ "types.go") ∧
      ((g.artifacts.map (·.path)).Nodup ↔ doc.TagsApart) ∧
      (doc.TagsApart → ∀ directory t count t', Output.writeArtifacts directory g.artifacts t = .ok count t' →
        ∀ a ∈ g.artifacts, KeyMap.get? t' (keyIn directory a.path) = some (.file a.content.toUTF8)) := by
  refine ⟨paths_of_tags h, fun tag => ⟨tagFile_ne (by decide) tag, tagFile_ne (by decide) tag⟩, nodup_paths_iff h, ?_⟩
  intro hapart directory t count t' hwrite
  exact Output.get?_of_writeArtifacts (plainName_of_generate h) ((nodup_paths_iff h).mpr hapart) hwrite

theorem generated_paths_distinct_sharedTag : ∃ g, generate 1 sharedTag petstore = .ok g ∧ sharedTag.TagsApart ∧
    (g.artifacts.map (·.path)).Nodup ∧
    ∀ directory t count t', Output.writeArtifacts directory g.artifacts t = .ok count t' →
      ∀ a ∈ g.artifacts, KeyMap.get? t' (keyIn directory a.path) = some (.file a.content.toUTF8) := by
  obtain ⟨g, h, -⟩ := @generate_of_files sharedTag ["default_api.go", "pets_api.go"] (by decide +kernel)
  have hapart : sharedTag.TagsApart := by
    unfold Document.TagsApart
    decide +kernel
  obtain ⟨-, -, hdistinct, hwritten⟩ := generated_paths_distinct_iff h
  exact ⟨g, h, hapart, hdistinct.mpr hapart, hwritten hapart⟩

/-- Operations under two tags that differ in case only. -/
def twoCases : Document :=
  { openapi := "3.0.3", info := ⟨"t", "1", none⟩, servers := [], tags := []
    paths :=
      [("/a", ⟨none, none, none, [(.get, ⟨["pets"], none, none, some "f", [], none, [], false, []⟩)], []⟩),
        ("/b", ⟨none, none, none, [(.get, ⟨["Pets"], none, none, some "g", [], none, [], false, []⟩)], []⟩)]
    components := ⟨[], [], [], []⟩ }

/-- Two groupings with different tags have one file. -/
theorem two_tags_share_file : ∃ g, generate 1 twoCases petstore = .ok g ∧
    g.artifacts.map (·.path) = ["client.go", "types.go", "pets_api.go", "pets_api.go"] ∧
    ¬ (g.artifacts.map (·.path)).Nodup := by
  obtain ⟨g, h, hpaths⟩ := @generate_of_files twoCases ["pets_api.go", "pets_api.go"] (by decide +kernel)
  refine ⟨g, h, hpaths, ?_⟩
  rw [hpaths]
  decide

end ClientGen
