import ClientGen.Proofs.Comments.Unbroken
import ClientGen.Proofs.Names.Closed
import ClientGen.Proofs.Names.Identifiers
import ClientGen.Proofs.Package.Generated
import ClientGen.Proofs.Request.Accepted
import ClientGen.Proofs.Source.Scan

/-
  ClientGen.Proofs.Source.Names — the names in generated code have no marks.

  A mark separates words, and no name has a character that does (`namesLack_of_buildModel`), unless
  it is the plus sign of a status, which is no mark. The names that types mention are such names
  too, whether or not something is declared under them (`types_unmarked`). So a package can be
  written with the names of its model (`plain_of_generate`).
-/

namespace ClientGen

open Source

variable {s name : String}

theorem unmarked_of_lacks (h : ∀ d, Separates d → d ≠ '+' → Lacks d s) : Unmarked s := by
  have hmarks : marks.all (fun d => decide (Separates d ∧ d ≠ '+')) = true := by decide
  intro c hc hmark
  obtain ⟨hseparates, hplus⟩ := of_decide_eq_true (List.all_eq_true.mp hmarks c hmark)
  exact h c hseparates hplus hc

theorem isWord_of_lacks (h : ∀ d, Separates d → Lacks d s) : ∀ c ∈ s.toList, isWord c = true := by
  intro c hc
  have hword : ¬ Separates c := fun hseparates => h c hseparates hc
  simp [isWord, hword]

theorem isWord_identifier (key : String) : ∀ c ∈ (Name.identifier key).toList, isWord c = true :=
  isWord_of_lacks fun _ hd => Name.lacks_identifier hd key

theorem unmarked_identifier (key : String) : Unmarked (Name.identifier key) :=
  unmarked_of_lacks fun _ hd _ => Name.lacks_identifier hd key

theorem Source.Unmarked.numbered (h : Unmarked name) {chosen : String} (hchosen : Numbered name chosen) :
    Unmarked chosen := by
  rcases hchosen with rfl | ⟨n, rfl⟩
  · exact h
  · exact h.append (unmarked_of_lacks fun _ hd _ => hd.lacks_toString n)

/-! ## Models -/

/-- A model that code can be written with. -/
structure ApiModel.Plain (m : ApiModel) : Prop where
  package : Unmarked m.package
  groupings : ∀ g ∈ m.groupings, Unmarked g.name
  methods : ∀ x ∈ m.methods, Unmarked x.name
  declarations : ∀ d ∈ m.declarations, Unmarked d.name
  formed : ∀ d ∈ m.declarations, d.Formed
  types : ∀ t ∈ m.types, t.In Unmarked
  /-- Query parameters and bodies have declared types. -/
  arguments : ∀ x ∈ m.methods, ∀ a ∈ x.queryParams.toList ++ x.body.toList, ∃ name, a.type = .named name

namespace Resolve

variable {doc : Document} {fuel : Nat} {s' : Session} {config : Config} {m : ApiModel}

theorem covers_unmarked (doc : Document) : Covers Unmarked (fun _ => True) doc where
  refs := by
    intro target _
    rw [referenceType, TypeRef.in_named]
    exact unmarked_of_lacks fun _ hd _ => lacks_componentTypeName hd _ _
  components := fun _ _ _ => trivial

theorem types_unmarked (h : Runs (buildModel doc config fuel) .start m s') : ∀ t ∈ m.types, t.In Unmarked := by
  have hnames {d : Char} (hd : Separates d) (hplus : d ≠ '+') := namesLack_of_buildModel hd hplus h
  obtain ⟨hdeclared, -⟩ := declaredNames_model h
  obtain ⟨p, rfl, hgroups, hshared, -⟩ := runs_buildModel h
  have hkeys : ∀ n, p.Known n → Unmarked n := by
    intro n hn
    obtain ⟨d, hd, rfl⟩ := mem_declaredNames (hdeclared.mem_iff.mpr hn)
    exact unmarked_of_lacks fun _ hsep hplus => (hnames hsep hplus).declarations d hd
  have hrefers : doc.Refers (fun _ => True) fun _ => True := ⟨fun _ _ => trivial, fun _ _ => trivial⟩
  have hresponses : ∀ key, True → Unmarked (responseComponentName key) := fun key _ =>
    unmarked_of_lacks fun _ hd _ => lacks_responseComponentName hd key
  obtain ⟨hdeclarations, hmethods⟩ := phases_close hrefers p (covers_unmarked doc) hresponses hkeys
  exact types_in_of_phases hgroups hshared hdeclarations hmethods

theorem mapOperation_arguments {e : Endpoint} {s : Session} {mapped : MappedOperation}
    (h : Runs (e.mapped doc fuel) s mapped s') :
    ∀ a ∈ mapped.method.queryParams.toList ++ mapped.method.body.toList, ∃ name, a.type = .named name := by
  obtain ⟨t, t1, t2, responses, -, hquery, hbody, -⟩ := runs_mapOperation h
  refine List.forall_mem_append.mpr ⟨?_, ?_⟩
  · rcases runs_queryParams hquery with ⟨-, hnone, -⟩ | ⟨_, _, -, hsome, -⟩
    · rw [hnone]
      exact List.forall_mem_nil _
    · rw [hsome]
      exact List.forall_mem_singleton.mpr ⟨_, rfl⟩
  · rcases runs_requestBody hbody with ⟨-, -, hnone, -⟩ | ⟨_, -, -, hsome⟩
    · rw [hnone]
      exact List.forall_mem_nil _
    · rw [hsome]
      exact List.forall_mem_singleton.mpr ⟨_, rfl⟩

end Resolve

/-- The name of a package is a Go identifier. -/
theorem unmarked_of_isIdentifier (h : Name.isIdentifier s = true) : Unmarked s := by
  have hmarks : marks.all (fun d => !Name.isIdentifierPart d) = true := by decide
  intro c hc hmark
  have hpart := List.all_eq_true.mp hmarks c hmark
  rw [Name.parts_of_isIdentifier h c hc] at hpart
  cases hpart

theorem isIdentifier_of_check {config : Config} (h : config.check = .ok ()) :
    Name.isIdentifier config.package = true := by
  unfold Config.check at h
  split_ifs at h with hempty hpackage hservice
  simpa using hpackage

theorem Settings.config_of_check {settings : Settings} (h : settings.check = .ok ()) :
    settings.config.check = .ok () := by
  unfold Settings.check at h
  cases hconfig : settings.config.check with
  | ok u => rfl
  | error e =>
    rw [hconfig] at h
    cases h

open Resolve in
theorem plain_of_generate {fuel : Nat} {doc : Document} {settings : Settings} {g : Generated}
    (h : generate fuel doc settings = .ok g) : g.model.Plain := by
  obtain ⟨hcheck, hbuild, -⟩ := build_of_generate h
  obtain ⟨s', hrun, -⟩ := runs_of_build hbuild
  have hnames {d : Char} (hd : Separates d) (hplus : d ≠ '+') := namesLack_of_buildModel hd hplus hrun
  constructor
  case package =>
    rw [package_of_buildModel hrun]
    exact unmarked_of_isIdentifier (isIdentifier_of_check (Settings.config_of_check hcheck))
  case groupings => exact fun g hg => unmarked_of_lacks fun _ hd hplus => (hnames hd hplus).groupings g hg
  case methods => exact fun x hx => unmarked_of_lacks fun _ hd hplus => (hnames hd hplus).methods x hx
  case declarations => exact fun d hin => unmarked_of_lacks fun _ hd hplus => (hnames hd hplus).declarations d hin
  case formed => exact (rooted_of_build hbuild).formed
  case types => exact types_unmarked hrun
  case arguments =>
    intro x hx
    obtain ⟨hgrouped, -⟩ := groupings_of_build hbuild
    obtain ⟨e, -, hmaps⟩ := hgrouped.exists_endpoint hx
    obtain ⟨s, mapped, s', hmap⟩ := hmaps.runs
    exact hmaps.method_eq hmap ▸ mapOperation_arguments hmap

end ClientGen
