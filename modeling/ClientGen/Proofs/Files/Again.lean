import ClientGen.Proofs.Files.Written

/-
  ClientGen.Proofs.Files.Again — writing a package where it was written before.

  Steps that write never take an entry away and never make a file of a directory or the other way
  round (`Later`). So what a step has found or made is still there for it later:
  - A directory is found, and making it changes nothing (`ensureDirectory_of_there`).
  - A file that nothing is written over reads as before (`readText_kept`).
  - A file that is written unless it is there is found (`writeIfAbsent_again`).
  - The files of a package can be written (`writeArtifacts_again`). Each place has the last file
    that went there, so the same files in the same order leave every entry as it is
    (`get?_withFiles_of_writeArtifacts`).
-/

namespace ClientGen

def Entry.isDirectory : Entry → Bool
  | .directory => true
  | .file _ => false

theorem Entry.eq_directory_iff {e : Entry} : e = .directory ↔ e.isDirectory = true := by
  cases e with
  | directory => simp [isDirectory]
  | file content => simp [isDirectory]

namespace FileTree

open ClientGen.Path (ofSegments join)

variable {t t' t'' : FileTree} {path : String}

/-- Every entry is still there, as a directory or as a file like before. -/
def Later (t t' : FileTree) : Prop :=
  ∀ key e, KeyMap.get? t key = some e → ∃ e', KeyMap.get? t' key = some e' ∧ e'.isDirectory = e.isDirectory

namespace Later

theorem refl (t : FileTree) : Later t t := fun _ e he => ⟨e, he, rfl⟩

theorem trans (h : Later t t') (h' : Later t' t'') : Later t t'' := by
  intro key e he
  obtain ⟨e', he', hkind⟩ := h key e he
  obtain ⟨e'', he'', hkind'⟩ := h' key e' he'
  exact ⟨e'', he'', hkind'.trans hkind⟩

theorem of_changes {new : String → Entry → Prop} (h : Changes Nowhere new t t') : Later t t' := by
  intro key e he
  exact ⟨e, h.kept id he, rfl⟩

theorem entryAt? (h : Later t t') {p : Place} {e : Entry} (he : t.entryAt? p = some e) :
    ∃ e', t'.entryAt? p = some e' ∧ e'.isDirectory = e.isDirectory := by
  unfold FileTree.entryAt? at he ⊢
  split
  · rename_i htop
    rw [if_pos htop, Option.some.injEq] at he
    exact ⟨.directory, rfl, by rw [← he]⟩
  · rename_i htop
    rw [if_neg htop] at he
    exact h _ e he

theorem entryAt?_directory (h : Later t t') {p : Place} (hp : t.entryAt? p = some .directory) :
    t'.entryAt? p = some .directory := by
  obtain ⟨e', he', hkind⟩ := h.entryAt? hp
  rwa [Entry.eq_directory_iff.mpr hkind] at he'

end Later

/-! ## Following names -/

theorem requireDirectory_eq_ok {p : Place} {u : Unit} :
    requireDirectory t p = .ok u ↔ t.entryAt? p = some .directory := by
  unfold requireDirectory
  split <;> simp_all

theorem Later.requireDirectory (h : Later t t') {p : Place} {u : Unit} (hp : requireDirectory t p = .ok u) :
    FileTree.requireDirectory t' p = .ok u :=
  requireDirectory_eq_ok.mpr (h.entryAt?_directory (requireDirectory_eq_ok.mp hp))

theorem Later.follow (h : Later t t') {p q : Place} {ns : List String} (hq : follow t p ns = .ok q) :
    FileTree.follow t' p ns = .ok q := by
  induction ns generalizing p with
  | nil => exact hq
  | cons name rest ih =>
    obtain ⟨u, hdir, hq⟩ := bind_eq_ok.mp hq
    refine bind_eq_ok.mpr ⟨u, h.requireDirectory hdir, ?_⟩
    split at hq
    · rw [if_pos ‹_›]
      exact ih hq
    · rw [if_neg ‹_›]
      split at hq
      · rw [if_pos ‹_›]
        exact ih hq
      · rw [if_neg ‹_›]
        split at hq
        · cases hq
        · rw [if_neg ‹_›]
          exact ih hq

theorem Later.newName (h : Later t t') {p : Place} {name : String} (hnew : NewName t path p name) :
    NewName t' path p name :=
  { hnew with
    follow := h.follow hnew.follow
    directory := h.requireDirectory hnew.directory }

/-! ## What is there -/

/-- What is found at a path. -/
theorem stat_eq_ok {e : Entry} :
    t.stat path = .ok e ↔ ∃ p, names path = .ok (top path, parts path) ∧ follow t (top path) (parts path) = .ok p ∧
      t.entryAt? p = some e ∧ (e.isDirectory = false → Path.endsInSlash path = false) := by
  constructor
  · intro h
    obtain ⟨⟨start, ns⟩, hnames, h⟩ := bind_eq_ok.mp h
    obtain ⟨rfl, rfl⟩ := names_eq hnames
    obtain ⟨p, hfollow, h⟩ := bind_eq_ok.mp h
    split at h
    · cases h
    · rename_i hentry
      split at h
      · cases h
      · rename_i hslash
        cases h
        exact ⟨p, hnames, hfollow, hentry, fun _ => Bool.eq_false_iff.mpr hslash⟩
    · rename_i hentry
      cases h
      exact ⟨p, hnames, hfollow, hentry, nofun⟩
  · intro h
    obtain ⟨p, hnames, hfollow, hentry, hslash⟩ := h
    refine bind_eq_ok.mpr ⟨_, hnames, bind_eq_ok.mpr ⟨p, hfollow, ?_⟩⟩
    rw [hentry]
    cases e with
    | directory => rfl
    | file content =>
      rw [hslash rfl]
      rfl

theorem Later.stat (h : Later t t') {e : Entry} (he : t.stat path = .ok e) :
    ∃ e', t'.stat path = .ok e' ∧ e'.isDirectory = e.isDirectory := by
  obtain ⟨p, hnames, hfollow, hentry, hslash⟩ := stat_eq_ok.mp he
  obtain ⟨e', hentry', hkind⟩ := h.entryAt? hentry
  exact ⟨e', stat_eq_ok.mpr ⟨p, hnames, h.follow hfollow, hentry', fun hfile => hslash (hkind ▸ hfile)⟩, hkind⟩

section

variable {owned : String → Prop} {new : String → Entry → Prop}

/-- A file that is not written over is found as it was. -/
theorem stat_kept (h : Changes owned new t t') (hlater : Later t t') (hpath : ¬ owned (keyOf path))
    {content : ByteArray} (hstat : t.stat path = .ok (.file content)) : t'.stat path = .ok (.file content) := by
  obtain ⟨p, hnames, hfollow, hentry, hslash⟩ := stat_eq_ok.mp hstat
  have hfile : t.entryAt? p ≠ some .directory := by simp [hentry]
  have hkept : KeyMap.get? t' (ofSegments p) = some (.file content) := by
    rw [keyOf, placeOf, ← follow_walk hfollow] at hpath
    exact h.kept hpath ((get?_eq_entry hfile).trans hentry)
  refine stat_eq_ok.mpr ⟨p, hnames, hlater.follow hfollow, ?_, hslash⟩
  unfold entryAt?
  rw [isTop_eq_false hfile]
  exact hkept

theorem readText_kept (h : Changes owned new t t') (hlater : Later t t') (hpath : ¬ owned (keyOf path)) {text : String}
    (hread : t.readText path = .ok text) : t'.readText path = .ok text := by
  obtain ⟨bytes, hbytes, hdecode⟩ := bind_eq_ok.mp hread
  obtain ⟨e, hstat, hfile⟩ := bind_eq_ok.mp hbytes
  cases e with
  | directory => cases hfile
  | file content => exact bind_eq_ok.mpr ⟨_, bind_eq_ok.mpr ⟨_, stat_kept h hlater hpath hstat, hfile⟩, hdecode⟩

end

theorem isThere_of_stat {e : Entry} (h : t.stat path = .ok e) : t.isThere path = .ok true := by
  rw [isThere, h]

theorem stat_of_isThere (h : t.isThere path = .ok true) : ∃ e, t.stat path = .ok e := by
  unfold isThere at h
  split at h
  · exact ⟨_, ‹_›⟩
  · cases h
  · cases h

theorem isDirectory_iff : t.isDirectory path = true ↔ t.stat path = .ok .directory := by
  unfold isDirectory
  split <;> simp_all

theorem Later.isDirectory (h : Later t t') (hpath : t.isDirectory path = true) : t'.isDirectory path = true := by
  obtain ⟨e', hstat, hkind⟩ := h.stat (isDirectory_iff.mp hpath)
  rw [Entry.eq_directory_iff.mpr hkind] at hstat
  exact isDirectory_iff.mpr hstat

/-! ## Directories -/

theorem entryAt?_put_self (t : FileTree) (p : Place) (e : Entry) (hp : isTop p = false) :
    (t.put p e).entryAt? p = some e := by
  unfold entryAt?
  rw [hp]
  exact KeyMap.get?_insert_self _ e t

theorem isDirectory_of_makeDirectory (h : makeDirectory t path = .ok t') : t'.isDirectory path = true := by
  have hlater : Later t t' := .of_changes (changes_makeDirectory h)
  obtain ⟨p, name, hnew, hnone, rfl⟩ := makeDirectory_eq h
  have htop : isTop (p ++ [name]) = false := isTop_eq_false (t := t) (by simp [hnone])
  have hfollow := (hlater.newName hnew).follow_parts
  exact isDirectory_iff.mpr (stat_eq_ok.mpr ⟨_, hnew.names, hfollow, entryAt?_put_self t _ _ htop, nofun⟩)

/-- A directory that is there cannot be made. -/
theorem makeDirectory_of_isDirectory (h : t.isDirectory path = true) : makeDirectory t path = .error .exists := by
  obtain ⟨p, hnames, hfollow, hentry, -⟩ := stat_eq_ok.mp (isDirectory_iff.mp h)
  unfold makeDirectory newName
  simp only [hnames, bind, Except.bind]
  cases hlast : (parts path).getLast? with
  | none => rfl
  | some name =>
    -- the path was followed to its last name and one step more
    rw [← List.dropLast_append_getLast? _ hlast, follow_append] at hfollow
    obtain ⟨q, habove, hfollow⟩ := bind_eq_ok.mp hfollow
    obtain ⟨u, hdir, hfollow⟩ := bind_eq_ok.mp hfollow
    simp only [habove, hdir]
    by_cases hself : name = "."
    · rw [if_pos (.inl hself)]
    · by_cases hup : name = ".."
      · rw [if_pos (.inr hup)]
      · rw [if_neg hself, if_neg hup] at hfollow
        rw [if_neg (not_or.mpr ⟨hself, hup⟩)]
        split at hfollow
        · cases hfollow
        · rw [if_neg ‹_›]
          cases hfollow
          simp only [hentry]

/-- What making a directory comes to: the empty path needs none. -/
def There (t : FileTree) (path : String) : Prop := path.isEmpty = true ∨ t.isDirectory path = true

theorem There.later (h : There t path) (hlater : Later t t') : There t' path := h.imp_right hlater.isDirectory

theorem isDirectory_of_makeOrFind (h : t.makeOrFind path = (t', .ok ())) : t'.isDirectory path = true := by
  unfold makeOrFind at h
  split at h
  · rename_i hmake
    cases h
    exact isDirectory_of_makeDirectory hmake
  · split at h
    · cases h
      assumption
    · cases h

theorem there_of_ensureDirectory (h : t.ensureDirectory path = (t', .ok ())) : There t' path := by
  unfold ensureDirectory makeDirectories at h
  split at h
  · exact .inl ‹_›
  · right
    split at h
    · cases h
    · split at h
      · cases h
      · exact isDirectory_of_makeOrFind h
    · exact isDirectory_of_makeOrFind h

theorem ensureDirectory_of_there (h : There t path) : t.ensureDirectory path = (t, .ok ()) := by
  unfold ensureDirectory makeDirectories
  split
  · rfl
  · rename_i hpath
    have hdir := h.resolve_left hpath
    have hfind : t.makeOrFind path = (t, .ok ()) := by
      rw [makeOrFind, makeDirectory_of_isDirectory hdir]
      exact if_pos hdir
    rw [makeDirectory_of_isDirectory hdir]
    exact hfind

/-! ## Files -/

theorem later_of_writeFile {content : ByteArray} (h : writeFile t path content = .ok t') : Later t t' := by
  obtain ⟨p, name, hnew, -, hentry, rfl⟩ := writeFile_eq_ok.mp h
  intro key e he
  by_cases hkey : key = keyOf path
  · subst hkey
    refine ⟨_, KeyMap.get?_insert_self _ _ t, ?_⟩
    cases e with
    | file content => rfl
    | directory =>
      rw [keyOf, hnew.placeOf_eq] at he
      refine absurd ?_ hentry
      unfold entryAt?
      split
      · rfl
      · exact he
  · exact ⟨e, by rwa [KeyMap.get?_insert_of_ne hkey], rfl⟩

/-- A file that was written is found. -/
theorem stat_of_writeFile {content : ByteArray} (h : writeFile t path content = .ok t') :
    t'.stat path = .ok (.file content) := by
  obtain ⟨p, name, hnew, hslash, hentry, heq⟩ := writeFile_eq_ok.mp h
  have hfollow := ((later_of_writeFile h).newName hnew).follow_parts
  refine stat_eq_ok.mpr ⟨p ++ [name], hnew.names, hfollow, ?_, fun _ => hslash⟩
  rw [heq, keyOf, hnew.placeOf_eq]
  exact entryAt?_put_self t _ _ (isTop_eq_false hentry)

/-- Where a file was written one can be written later. -/
theorem writeFile_again {content content' : ByteArray} (h : writeFile t path content = .ok t') (hlater : Later t' t'') :
    writeFile t'' path content' = .ok (KeyMap.insert (keyOf path) (.file content') t'') := by
  obtain ⟨p, name, hnew, hslash, -, -⟩ := writeFile_eq_ok.mp h
  obtain ⟨q, -, hfollow, hentry, -⟩ := stat_eq_ok.mp (stat_of_writeFile h)
  have hnew' := (later_of_writeFile h).newName hnew
  rw [hnew'.follow_parts, Except.ok.injEq] at hfollow
  subst hfollow
  refine writeFile_eq_ok.mpr ⟨p, name, hlater.newName hnew', hslash, ?_, rfl⟩
  intro hdir
  obtain ⟨e, he, hkind⟩ := hlater.entryAt? hentry
  rw [hdir, Option.some.injEq] at he
  rw [← he] at hkind
  cases hkind

end FileTree

/-! ## Steps that write -/

open FileTree (Later There keyOf keyIn PlainName)

namespace Output

variable {t t' t₁ : FileTree} {directory path content content' action : String} {a : Template.Artifact}
  {artifacts : List Template.Artifact}

theorem ensureDirectory_eq_ok : ensureDirectory path t = .ok () t' ↔ t.ensureDirectory path = (t', .ok ()) := by
  rw [ensureDirectory_run]
  rcases t.ensureDirectory path with ⟨t₁, e | u⟩
  · simp
  · simp

theorem ensureDirectory_again (h : ensureDirectory path t = .ok () t₁) (hlater : Later t₁ t') :
    ensureDirectory path t' = .ok () t' := by
  have hthere := FileTree.there_of_ensureDirectory (ensureDirectory_eq_ok.mp h)
  exact ensureDirectory_eq_ok.mpr (FileTree.ensureDirectory_of_there (hthere.later hlater))

theorem writeFile_eq_ok : writeFile action path content t = .ok () t' ↔ t.writeFile path content.toUTF8 = .ok t' := by
  rw [writeFile_run]
  cases t.writeFile path content.toUTF8 with
  | ok t₁ => simp
  | error e => simp

/-- A file that was found or written is found. -/
theorem writeIfAbsent_again {created : Bool} (h : writeIfAbsent path content t = .ok created t₁)
    (hlater : Later t₁ t') : writeIfAbsent path content' t' = .ok false t' := by
  have hstat : ∃ e, t₁.stat path = .ok e := by
    rw [writeIfAbsent_run] at h
    split at h
    · cases h
    · rename_i hthere
      cases h
      exact FileTree.stat_of_isThere hthere
    · cases hwrite : t.writeFile path content.toUTF8 with
      | error e =>
        rw [hwrite] at h
        cases h
      | ok t₂ =>
        rw [hwrite] at h
        cases h
        exact ⟨_, FileTree.stat_of_writeFile hwrite⟩
  obtain ⟨e, he⟩ := hstat
  obtain ⟨e', he', -⟩ := hlater.stat he
  rw [writeIfAbsent_run, FileTree.isThere_of_stat he']

/-! ## The files of a package -/

/-- A tree with a file of a package put in a directory. -/
def withFile (directory : String) (t : FileTree) (a : Template.Artifact) : FileTree :=
  KeyMap.insert (keyIn directory a.path) (.file a.content.toUTF8) t

/-- The same for all files, one after another. -/
def withFiles (directory : String) (artifacts : List Template.Artifact) (t : FileTree) : FileTree :=
  artifacts.foldl (withFile directory) t

theorem get?_withFile_self (directory : String) (t : FileTree) (a : Template.Artifact) :
    KeyMap.get? (withFile directory t a) (keyIn directory a.path) = some (.file a.content.toUTF8) :=
  KeyMap.get?_insert_self _ _ t

theorem get?_withFiles_of_not_target {key : String} (h : ¬ Target directory artifacts key) (t : FileTree) :
    KeyMap.get? (withFiles directory artifacts t) key = KeyMap.get? t key := by
  induction artifacts generalizing t with
  | nil => rfl
  | cons a rest ih =>
    have hrest : ¬ Target directory rest key := by
      intro ⟨b, hb, hkey⟩
      exact h ⟨b, List.mem_cons_of_mem a hb, hkey⟩
    have hne : key ≠ keyIn directory a.path := fun hkey => h ⟨a, List.mem_cons_self, hkey⟩
    exact (ih hrest (withFile directory t a)).trans (KeyMap.get?_insert_of_ne hne _ t)

theorem later_ensureDirectory (path : String) (t : FileTree) : Later t (stateOf (ensureDirectory path t)) :=
  .of_changes (outcome_ensureDirectory t path).changes

theorem later_writeIfAbsent (path content : String) (t : FileTree) :
    Later t (stateOf (writeIfAbsent path content t)) :=
  .of_changes (outcome_writeIfAbsent path content t).changes

theorem later_writeFile (action path content : String) (t : FileTree) :
    Later t (stateOf (writeFile action path content t)) := by
  rw [writeFile_run]
  cases hwrite : t.writeFile path content.toUTF8 with
  | ok t' => exact FileTree.later_of_writeFile hwrite
  | error e => exact .refl t

theorem later_writeArtifact (hname : PlainName a.path) (directory : String) (t : FileTree) :
    Later t (stateOf (writeArtifact directory a t)) := by
  rw [writeArtifact_run hname]
  refine stateOf_bind .trans ?_ fun _ t₁ _ => later_writeFile _ _ _ t₁
  cases Path.parent? (Path.join directory a.path) with
  | none => exact .refl t
  | some parent => exact later_ensureDirectory parent t

theorem later_forM (hnames : ∀ a ∈ artifacts, PlainName a.path) (directory : String) (t : FileTree) :
    Later t (stateOf (artifacts.forM (writeArtifact directory) t)) := by
  induction artifacts generalizing t with
  | nil => exact .refl t
  | cons a rest ih =>
    obtain ⟨hname, hrest⟩ := List.forall_mem_cons.mp hnames
    rw [List.forM_eq_forM, List.forM_cons]
    exact stateOf_bind .trans (later_writeArtifact hname directory t) fun _ t₁ _ => ih hrest t₁

theorem later_of_forM (hnames : ∀ a ∈ artifacts, PlainName a.path)
    (h : artifacts.forM (writeArtifact directory) t = .ok () t') : Later t t' := by
  have hlater := later_forM hnames directory t
  rwa [h] at hlater

theorem later_writeArtifacts (hnames : ∀ a ∈ artifacts, PlainName a.path) (directory : String) (t : FileTree) :
    Later t (stateOf (writeArtifacts directory artifacts t)) := by
  rw [writeArtifacts_run]
  exact stateOf_bind .trans (later_forM hnames directory t) fun _ t₁ _ => .refl t₁

/-- Where a file was written one can be written later, and nothing else changes then. -/
theorem writeArtifact_again (hname : PlainName a.path) (h : writeArtifact directory a t = .ok () t₁)
    (hlater : Later t₁ t') {b : Template.Artifact} (hpath : b.path = a.path) :
    writeArtifact directory b t' = .ok () (withFile directory t' b) := by
  rw [writeArtifact_run hname, bind_eq_ok] at h
  rw [writeArtifact_run (hpath ▸ hname), hpath, bind_eq_ok]
  obtain ⟨u, t₂, hparent, hwrite⟩ := h
  have hwritten := writeFile_eq_ok.mp hwrite
  refine ⟨(), t', ?_, ?_⟩
  · cases hpath : Path.parent? (Path.join directory a.path) with
    | none => rfl
    | some parent =>
      rw [hpath] at hparent
      exact ensureDirectory_again hparent ((FileTree.later_of_writeFile hwritten).trans hlater)
  · rw [writeFile_eq_ok, withFile, hpath, ← FileTree.keyOf_join directory hname]
    exact FileTree.writeFile_again hwritten hlater

theorem forM_again (hnames : ∀ a ∈ artifacts, PlainName a.path)
    (h : artifacts.forM (writeArtifact directory) t = .ok () t₁) (hlater : Later t₁ t')
    {others : List Template.Artifact} (hpaths : others.map (·.path) = artifacts.map (·.path)) :
    others.forM (writeArtifact directory) t' = .ok () (withFiles directory others t') := by
  induction artifacts generalizing others t t' with
  | nil =>
    rw [List.map_eq_nil_iff.mp hpaths]
    rfl
  | cons a rest ih =>
    cases others with
    | nil => cases hpaths
    | cons b others =>
      obtain ⟨hname, hrest⟩ := List.forall_mem_cons.mp hnames
      obtain ⟨hpath, hpaths⟩ : b.path = a.path ∧ _ := List.cons.inj hpaths
      rw [List.forM_eq_forM, List.forM_cons, bind_eq_ok] at h ⊢
      obtain ⟨u, t₂, hfirst, hnext⟩ := h
      have hagain : writeArtifact directory b t' = .ok () (withFile directory t' b) :=
        writeArtifact_again hname hfirst ((later_of_forM hrest hnext).trans hlater) hpath
      have hlater' := later_writeArtifact (hpath ▸ hname) directory t'
      rw [hagain] at hlater'
      exact ⟨(), _, hagain, ih hrest hnext (hlater.trans hlater') hpaths⟩

/-- Each place has the last file that went there, whatever the tree was. -/
theorem get?_written (hnames : ∀ a ∈ artifacts, PlainName a.path)
    (h : artifacts.forM (writeArtifact directory) t = .ok () t₁) {key : String}
    (hkey : Target directory artifacts key) :
    KeyMap.get? (withFiles directory artifacts t') key = KeyMap.get? t₁ key := by
  induction artifacts generalizing t t' with
  | nil =>
    obtain ⟨a, ha, -⟩ := hkey
    cases ha
  | cons a rest ih =>
    obtain ⟨hname, hrest⟩ := List.forall_mem_cons.mp hnames
    rw [List.forM_eq_forM, List.forM_cons, bind_eq_ok] at h
    obtain ⟨u, t₂, hfirst, hnext⟩ := h
    by_cases hlast : Target directory rest key
    · exact ih hrest hnext hlast
    · -- no later file goes to the place of this one
      obtain ⟨b, hb, rfl⟩ := hkey
      have hself : b = a := (List.mem_cons.mp hb).resolve_right fun hb => hlast ⟨b, hb, rfl⟩
      subst hself
      have hafter := outcome_forM directory hrest t₂
      rw [List.forM_eq_forM, hnext] at hafter
      rw [hafter.changes_of_ok.kept hlast (get?_of_writeArtifact hname hfirst)]
      exact (get?_withFiles_of_not_target hlast _).trans (get?_withFile_self directory t' b)

theorem writeArtifacts_eq_ok {count : Nat} :
    writeArtifacts directory artifacts t = .ok count t' ↔
      artifacts.forM (writeArtifact directory) t = .ok () t' ∧ count = artifacts.length := by
  rw [writeArtifacts_run, bind_eq_ok]
  constructor
  · intro h
    obtain ⟨u, t₁, hwrite, hcount⟩ := h
    cases hcount
    exact ⟨hwrite, rfl⟩
  · intro h
    obtain ⟨hwrite, rfl⟩ := h
    exact ⟨(), t', hwrite, rfl⟩

/-- Where files were written, files with the same paths can be written later. -/
theorem writeArtifacts_again {count : Nat} (hnames : ∀ a ∈ artifacts, PlainName a.path)
    (h : writeArtifacts directory artifacts t = .ok count t₁) (hlater : Later t₁ t')
    {others : List Template.Artifact} (hpaths : others.map (·.path) = artifacts.map (·.path)) :
    writeArtifacts directory others t' = .ok others.length (withFiles directory others t') :=
  writeArtifacts_eq_ok.mpr ⟨forM_again hnames (writeArtifacts_eq_ok.mp h).1 hlater hpaths, rfl⟩

/-- Once the files of a package are written, putting them again leaves every entry as it is. -/
theorem get?_withFiles_of_writeArtifacts {count : Nat} (hnames : ∀ a ∈ artifacts, PlainName a.path)
    (h : writeArtifacts directory artifacts t = .ok count t') (key : String) :
    KeyMap.get? (withFiles directory artifacts t') key = KeyMap.get? t' key := by
  by_cases hkey : Target directory artifacts key
  · exact get?_written hnames (writeArtifacts_eq_ok.mp h).1 hkey
  · exact get?_withFiles_of_not_target hkey t'

end Output

end ClientGen
