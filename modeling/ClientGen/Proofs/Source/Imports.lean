import ClientGen.Proofs.Source.Methods

/-
  ClientGen.Proofs.Source.Imports — the imports of a file and the packages that it names.

  A file imports what it names, each package once. Beside that it imports `encoding/json`, if it
  has a sum type without variants (`plain_sharedFile`, `plain_groupingFile`). So its imports are
  what it names unless such a type is all there is to encode (`File.Plain.imports_used_iff`).
-/

namespace ClientGen.Go

open Source

variable {m : ApiModel} {f : File} {path : String}

/-! ## Import lists -/

theorem mem_importList {paths : List String} : path ∈ importList paths ↔ path ∈ paths := by
  rw [importList, KeyMap.mem_keys_ofList, KeyMap.keys, List.map_map]
  simp

theorem nodup_importList (paths : List String) : (importList paths).Nodup := (KeyMap.sorted_ofList _).nodup_keys

/-- The import path of a package that generated files use. -/
def Known (path : String) : Prop := ∃ p ∈ packages, p.2 = path

/-- The path can be written as a text. -/
theorem Known.scans (h : Known path) : Scans (At (.quoted false)) path (At (.quoted false)) [] := by
  have hall : ∀ p ∈ packages, Scans (At (.quoted false)) p.2 (At (.quoted false)) [] := by
    simp only [packages, List.forall_mem_cons]
    exact ⟨.of_chars (by decide), .of_chars (by decide), .of_chars (by decide), .of_chars (by decide),
      .of_chars (by decide), .of_chars (by decide), .of_chars (by decide), .of_chars (by decide), List.forall_mem_nil _⟩
  obtain ⟨p, hp, rfl⟩ := h
  exact hall p hp

theorem known_of_package? {word : List Char} (h : package? word = some path) : Known path := by
  obtain ⟨before, after, hpackages, -⟩ := List.lookup_eq_some_iff.mp h
  refine ⟨(String.ofList word, path), ?_, rfl⟩
  rw [hpackages]
  exact List.mem_append_right before List.mem_cons_self

theorem known_of_step {mode : Mode} {c : Char} (h : (step mode c).2 = some path) : Known path := by
  have hcode {afterDot : Bool} {word : List Char} (h : (stepCode afterDot word c).2 = some path) : Known path := by
    unfold stepCode at h
    split_ifs at h
    exact known_of_package? h
  cases mode with
  | code afterDot word => exact hcode h
  | slash =>
    simp only [step] at h
    split_ifs at h
    exact hcode h
  | _ => cases h

theorem known_of_mem_packagesIn {text : String} (h : path ∈ packagesIn text) : Known path := by
  have hscan : ∀ cs mode, path ∈ (scan mode cs).2 → Known path := by
    intro cs
    induction cs with
    | nil => exact fun _ h => nomatch h
    | cons c rest ih =>
      intro mode hmem
      rw [scan_cons] at hmem
      rcases List.mem_append.mp hmem with hmem | hmem
      · exact known_of_step (Option.mem_toList.mp hmem)
      · exact ih _ hmem
  exact hscan text.toList start h

theorem known_json : Known "encoding/json" := ⟨("json", "encoding/json"), by decide, rfl⟩

theorem known_of_mem_pieces {pieces : List String} (h : path ∈ pieces.flatMap packagesIn) : Known path := by
  obtain ⟨text, -, hpath⟩ := List.mem_flatMap.mp h
  exact known_of_mem_packagesIn hpath

theorem known_of_mem_fields {fields : List GoField} (h : path ∈ fields.flatMap (·.uses)) : Known path := by
  obtain ⟨f, -, hpath⟩ := List.mem_flatMap.mp h
  exact known_of_mem_packagesIn hpath

theorem known_of_mem_error {error : Option ErrorMethod} (h : path ∈ error.toList.flatMap (·.uses)) : Known path := by
  obtain ⟨e, -, hpath⟩ := List.mem_flatMap.mp h
  unfold ErrorMethod.uses at hpath
  split at hpath
  · cases hpath
  · exact ⟨("fmt", "fmt"), by decide, (List.mem_singleton.mp hpath).symm⟩

theorem known_of_mem_declaration {d : GoDeclaration} (h : path ∈ d.uses) : Known path := by
  cases d with
  | struct name doc fields error =>
    rcases List.mem_append.mp h with h | h
    · exact known_of_mem_fields h
    · exact known_of_mem_error h
  | aliasOf name doc target error =>
    rcases List.mem_append.mp h with h | h
    · exact known_of_mem_packagesIn h
    · exact known_of_mem_error h
  | enumeration name doc base constants => cases h
  | sum name doc variants undecoded error =>
    simp only [GoDeclaration.uses, List.mem_append] at h
    rcases h with ((h | h) | h) | h
    · exact known_of_mem_fields h
    · split at h
      · cases h
      · exact List.mem_singleton.mp h ▸ known_json
    · split at h
      · exact ⟨("errors", "errors"), by decide, (List.mem_singleton.mp h).symm⟩
      · cases h
    · exact known_of_mem_error h
  | calendar name doc layout =>
    simp only [GoDeclaration.uses, List.mem_cons, List.not_mem_nil, or_false] at h
    rcases h with rfl | rfl
    · exact known_json
    · exact ⟨("time", "time"), by decide, rfl⟩
  | queryEncoder typeName statements =>
    rcases List.mem_cons.mp h with rfl | h
    · exact ⟨("url", "net/url"), by decide, rfl⟩
    · exact known_of_mem_pieces h

theorem known_of_mem_method {x : GoMethod} (h : path ∈ x.uses) : Known path := by
  simp only [GoMethod.uses, List.mem_append, List.mem_cons] at h
  rcases h with ((((((rfl | h) | h) | h) | h) | h) | h) | h
  · exact ⟨("context", "context"), by decide, rfl⟩
  · exact known_of_mem_packagesIn h
  · exact known_of_mem_packagesIn h
  · exact known_of_mem_packagesIn h
  · exact known_of_mem_packagesIn h
  · exact known_of_mem_packagesIn h
  · exact known_of_mem_packagesIn h
  · obtain ⟨c, -, hpath⟩ := List.mem_flatMap.mp h
    rcases List.mem_append.mp hpath with hpath | hpath
    · exact known_of_mem_packagesIn hpath
    · exact known_of_mem_pieces hpath

theorem known_of_mem_file (h : path ∈ f.uses) : Known path := by
  rcases List.mem_append.mp h with h | h
  · obtain ⟨d, -, hpath⟩ := List.mem_flatMap.mp h
    exact known_of_mem_declaration hpath
  · obtain ⟨s, -, hs⟩ := List.mem_flatMap.mp h
    obtain ⟨x, -, hpath⟩ := List.mem_flatMap.mp hs
    exact known_of_mem_method hpath

/-! ## Files -/

/-- A file that can be written, and whose imports are known up to one. -/
structure File.Plain (f : File) : Prop where
  declarations : ∀ d ∈ f.declarations, d.Readable
  service : ∀ s ∈ f.service, s.Readable
  nodup : f.imports.Nodup
  /-- Beside what is named, only `encoding/json` is imported, for a sum type without variants. -/
  imports : ∀ path, path ∈ f.imports ↔
    path ∈ f.uses ∨ path = "encoding/json" ∧ ∃ d ∈ f.declarations, d.isBareSum = true
  json : "encoding/json" ∈ f.uses ↔ ∃ d ∈ f.declarations, d.encodes = true

theorem File.Plain.readable (h : f.Plain) (hdoc : ∀ t ∈ f.docLines, OneLine t) : f.Readable where
  imports := by
    intro path hpath
    rcases (h.imports path).mp hpath with huses | ⟨rfl, -⟩
    · exact (known_of_mem_file huses).scans
    · exact known_json.scans
  declarations := h.declarations
  service := h.service
  doc := hdoc

theorem File.Plain.imports_used_iff (h : f.Plain) : (∀ path ∈ f.imports, path ∈ f.uses) ↔
    ((∃ d ∈ f.declarations, d.isBareSum = true) → ∃ d ∈ f.declarations, d.encodes = true) := by
  constructor
  · intro hused hbare
    exact h.json.mp (hused _ ((h.imports _).mpr (.inr ⟨rfl, hbare⟩)))
  · intro hencodes path hpath
    rcases (h.imports path).mp hpath with huses | ⟨rfl, hbare⟩
    · exact huses
    · exact h.json.mpr (hencodes hbare)

/-! ## Files of a model -/

section

variable {ds : List Declaration} (h : m.Plain) (hds : ∀ d ∈ ds, d ∈ m.declarations)

include h hds

theorem readable_declarations : ∀ d ∈ ds.map (declaration m), d.Readable := by
  intro _ hin
  obtain ⟨d, hd, rfl⟩ := List.mem_map.mp hin
  exact (readable_declaration h (hds d hd)).1

theorem mem_declarationImports : path ∈ ds.flatMap (declarationImports m) ↔
    path ∈ (ds.map (declaration m)).flatMap (·.uses) ∨
      path = "encoding/json" ∧ ∃ d ∈ ds.map (declaration m), d.isBareSum = true := by
  have hown : ∀ d ∈ ds, (path ∈ declarationImports m d ↔
      path ∈ (declaration m d).uses ∨ (declaration m d).isBareSum = true ∧ path = "encoding/json") :=
    fun d hd => (readable_declaration h (hds d hd)).2 path
  rw [List.flatMap_map, List.mem_flatMap, List.mem_flatMap]
  constructor
  · rintro ⟨d, hd, hpath⟩
    rcases (hown d hd).mp hpath with huses | ⟨hbare, hjson⟩
    · exact .inl ⟨d, hd, huses⟩
    · exact .inr ⟨hjson, declaration m d, List.mem_map_of_mem hd, hbare⟩
  · rintro (⟨d, hd, huses⟩ | ⟨hjson, _, hin, hbare⟩)
    · exact ⟨d, hd, (hown d hd).mpr (.inl huses)⟩
    · obtain ⟨d, hd, rfl⟩ := List.mem_map.mp hin
      exact ⟨d, hd, (hown d hd).mpr (.inr ⟨hbare, hjson⟩)⟩

theorem json_mem_declarations : "encoding/json" ∈ (ds.map (declaration m)).flatMap (·.uses) ↔
    ∃ d ∈ ds.map (declaration m), d.encodes = true := by
  rw [List.mem_flatMap]
  refine exists_congr fun _ => and_congr_right ?_
  intro hin
  obtain ⟨d, hd, rfl⟩ := List.mem_map.mp hin
  exact json_mem_uses_iff h (hds d hd)

end

theorem json_not_mem_methodImports (x : Method) : "encoding/json" ∉ methodImports x := by
  simp only [methodImports, List.mem_append, List.mem_flatMap, json_not_mem_typeImports, and_false, exists_false,
    or_self, not_false_iff]

theorem plain_sharedFile (h : m.Plain) : (sharedFile m).Plain := by
  have hds : ∀ d ∈ m.shared, d ∈ m.declarations := fun d hd => List.mem_append_right _ hd
  have huses : (sharedFile m).uses = (m.shared.map (declaration m)).flatMap (·.uses) := List.append_nil _
  constructor
  case declarations => exact readable_declarations h hds
  case service => exact fun _ hs => nomatch hs
  case nodup => exact nodup_importList _
  case imports =>
    intro path
    rw [huses]
    exact mem_importList.trans (mem_declarationImports h hds)
  case json =>
    rw [huses]
    exact json_mem_declarations h hds

/-- A service with methods imports what every method names. -/
theorem mem_serviceImports (h : m.Plain) {methods : List Method} (hmethods : ∀ x ∈ methods, x ∈ m.methods) :
    path ∈ (if methods.isEmpty then [] else ["context", "net/http"]) ++ methods.flatMap methodImports ↔
      path ∈ (methods.map (method m)).flatMap (·.uses) := by
  have hown : ∀ x ∈ methods, (path ∈ (method m x).uses ↔ path ∈ ["context", "net/http"] ++ methodImports x) :=
    fun x hx => (readable_method h (hmethods x hx)).2 path
  have hcommon : path ∈ (if methods.isEmpty then [] else ["context", "net/http"]) ↔
      ∃ x ∈ methods, path ∈ ["context", "net/http"] := by
    cases methods with
    | nil => simp
    | cons x rest => exact ⟨fun hpath => ⟨x, List.mem_cons_self, hpath⟩, fun ⟨_, _, hpath⟩ => hpath⟩
  rw [List.flatMap_map, List.mem_append, hcommon, List.mem_flatMap, List.mem_flatMap]
  constructor
  · rintro (⟨x, hx, hpath⟩ | ⟨x, hx, hpath⟩)
    · exact ⟨x, hx, (hown x hx).mpr (List.mem_append_left _ hpath)⟩
    · exact ⟨x, hx, (hown x hx).mpr (List.mem_append_right _ hpath)⟩
  · rintro ⟨x, hx, hpath⟩
    rcases List.mem_append.mp ((hown x hx).mp hpath) with hpath | hpath
    · exact .inl ⟨x, hx, hpath⟩
    · exact .inr ⟨x, hx, hpath⟩

theorem plain_groupingFile (h : m.Plain) {g : Grouping} (hg : g ∈ m.groupings) : (groupingFile m g).Plain := by
  have hds : ∀ d ∈ g.declarations, d ∈ m.declarations :=
    fun d hd => List.mem_append_left _ (List.mem_flatMap_of_mem hg hd)
  have hmethods : ∀ x ∈ g.methods, x ∈ m.methods := fun x hx => List.mem_flatMap_of_mem hg hx
  have huses : (groupingFile m g).uses =
      (g.declarations.map (declaration m)).flatMap (·.uses) ++ (g.methods.map (method m)).flatMap (·.uses) := by
    rw [File.uses, groupingFile, Option.toList_some, List.flatMap_singleton]
  have hsuffix : Unmarked "Service" := .of_chars (by decide)
  constructor
  case declarations => exact readable_declarations h hds
  case service =>
    intro s hs
    rw [← Option.some.inj hs]
    refine ⟨(h.groupings g hg).append hsuffix, ?_⟩
    intro _ hin
    obtain ⟨x, hx, rfl⟩ := List.mem_map.mp hin
    exact (readable_method h (hmethods x hx)).1
  case nodup => exact nodup_importList _
  case imports =>
    intro path
    have hservice := @mem_serviceImports m path h g.methods hmethods
    rw [huses, List.mem_append]
    refine mem_importList.trans ?_
    rw [List.append_assoc, List.mem_append, mem_declarationImports h hds, hservice]
    exact or_right_comm
  case json =>
    have hnone : "encoding/json" ∉ (g.methods.map (method m)).flatMap (·.uses) := by
      rw [← mem_serviceImports h hmethods, List.mem_append, List.mem_flatMap]
      rintro (hpath | ⟨x, -, hpath⟩)
      · split at hpath
        · cases hpath
        · exact absurd hpath (by decide)
      · exact json_not_mem_methodImports x hpath
    rw [huses, List.mem_append, or_iff_left hnone]
    exact json_mem_declarations h hds

end ClientGen.Go
