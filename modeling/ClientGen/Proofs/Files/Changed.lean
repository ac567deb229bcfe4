import ClientGen.Output
import ClientGen.Proofs.Files.Place

/-
  ClientGen.Proofs.Files.Changed — what writing changes in a tree.

  `Changes` says which entries a step may write over and what the new ones are.
  - Making a directory and those above it writes over nothing. What is new are directories on the
    way to the path (`changes_ensureDirectory`), also where making one fails.
  - Writing a file puts one entry, at the place of its path (`writeFile_eq_ok`). A file that is
    written where none is there is a new entry (`get?_of_not_isThere`).
-/

namespace ClientGen

namespace FileTree

open ClientGen.Path (ofSegments join)

variable {t t' : FileTree} {path : String}

/-! ## Changes -/

/-- A tree after steps that write over entries only where `owned` says so, and add only what is `new`. -/
structure Changes (owned : String → Prop) (new : String → Entry → Prop) (t t' : FileTree) : Prop where
  kept : ∀ {key e}, ¬ owned key → KeyMap.get? t key = some e → KeyMap.get? t' key = some e
  made : ∀ {key e}, KeyMap.get? t' key = some e → KeyMap.get? t key = some e ∨ new key e

namespace Changes

variable {owned owned' : String → Prop} {new new' : String → Entry → Prop}

theorem refl (t : FileTree) : Changes owned new t t := ⟨fun _ => id, .inl⟩

theorem trans {t'' : FileTree} (h : Changes owned new t t') (h' : Changes owned new t' t'') :
    Changes owned new t t'' where
  kept := fun howned hkey => h'.kept howned (h.kept howned hkey)
  made := by
    intro key e hkey
    rcases h'.made hkey with hkey | hnew
    · exact h.made hkey
    · exact .inr hnew

theorem mono (h : Changes owned new t t') (howned : ∀ key, owned key → owned' key)
    (hnew : ∀ key e, new key e → new' key e) : Changes owned' new' t t' where
  kept := fun hkey => h.kept fun hold => hkey (howned _ hold)
  made := fun hkey => (h.made hkey).imp_right (hnew _ _)

theorem insert (t : FileTree) {key : String} {e : Entry} (howned : owned key ∨ KeyMap.get? t key = none)
    (hnew : new key e) : Changes owned new t (KeyMap.insert key e t) where
  kept := by
    intro k e' hkey hget
    have hne : k ≠ key := by
      rintro rfl
      rcases howned with howned | hnone
      · exact hkey howned
      · rw [hnone] at hget
        cases hget
    rwa [KeyMap.get?_insert_of_ne hne]
  made := by
    intro k e' hget
    by_cases heq : k = key
    · rw [heq, KeyMap.get?_insert_self] at hget
      rw [heq, ← Option.some.inj hget]
      exact .inr hnew
    · rw [KeyMap.get?_insert_of_ne heq] at hget
      exact .inl hget

end Changes

/-- Over nothing. -/
abbrev Nowhere (_ : String) : Prop := False

/-! ## Following names -/

theorem follow_append (t : FileTree) (p : Place) (ns more : List String) :
    follow t p (ns ++ more) = (follow t p ns).bind fun q => follow t q more := by
  induction ns generalizing p with
  | nil => rfl
  | cons name rest ih =>
    simp only [List.cons_append, follow]
    cases requireDirectory t p with
    | error e => rfl
    | ok u =>
      simp only [bind, Except.bind]
      split
      · exact ih p
      · split
        · exact ih _
        · split
          · rfl
          · exact ih _

/-- A name that an entry can be put under, in a directory that is there. -/
structure NewName (t : FileTree) (path : String) (p : Place) (name : String) : Prop where
  names : names path = .ok (top path, parts path)
  parts : parts path = (parts path).dropLast ++ [name]
  follow : follow t (top path) (FileTree.parts path).dropLast = .ok p
  directory : requireDirectory t p = .ok ()
  notSelf : name ≠ "."
  notUp : name ≠ ".."
  short : ¬ longestName < name.utf8ByteSize

theorem newName_of_eq {taken : FileError} {p : Place} {name : String}
    (h : newName t path taken = .ok (p, name)) : NewName t path p name := by
  obtain ⟨⟨start, ns⟩, hnames, h⟩ := bind_eq_ok.mp h
  obtain ⟨rfl, rfl⟩ := names_eq hnames
  dsimp only at h
  split at h
  · cases h
  · rename_i last hlast
    obtain ⟨q, hfollow, h⟩ := bind_eq_ok.mp h
    obtain ⟨u, hdirectory, h⟩ := bind_eq_ok.mp h
    split at h
    · cases h
    · rename_i hdots
      split at h
      · cases h
      · rename_i hshort
        cases h
        obtain ⟨hself, hup⟩ := not_or.mp hdots
        refine ⟨hnames, ?_, hfollow, hdirectory, hself, hup, hshort⟩
        exact (List.dropLast_append_getLast? _ hlast).symm

namespace NewName

variable {p : Place} {name : String}

/-- The converse of `newName_of_eq`. -/
theorem newName_eq (h : NewName t path p name) (taken : FileError) : newName t path taken = .ok (p, name) := by
  unfold newName
  have hlast : (FileTree.parts path).getLast? = some name := by
    rw [h.parts, List.getLast?_concat]
  simp only [h.names, bind, Except.bind, hlast, h.follow, h.directory, h.notSelf, h.notUp, h.short, or_self, if_false]

theorem placeOf_eq (h : NewName t path p name) : placeOf path = p ++ [name] := by
  unfold placeOf
  rw [h.parts, walk_append, ← follow_walk h.follow, walk_name p h.notSelf h.notUp]

/-- The path leads to the new entry. -/
theorem follow_parts (h : NewName t path p name) :
    FileTree.follow t (top path) (FileTree.parts path) = .ok (p ++ [name]) := by
  rw [h.parts, follow_append, h.follow]
  simp [FileTree.follow, Except.bind, bind, h.directory, h.notSelf, h.notUp, h.short]

end NewName

/-- The top of the tree is a directory. -/
theorem isTop_eq_false {p : Place} (h : t.entryAt? p ≠ some .directory) : isTop p = false := by
  cases htop : isTop p with
  | false => rfl
  | true => exact absurd (if_pos htop) h

theorem get?_eq_entry {p : Place} (h : t.entryAt? p ≠ some .directory) : KeyMap.get? t (ofSegments p) = t.entryAt? p := by
  rw [entryAt?, isTop_eq_false h]
  rfl

/-! ## Directories -/

/-- The key of a place that is passed on the way to a path, or of the path itself. -/
def OnWay (path key : String) : Prop := ∃ ns, ns <+: parts path ∧ key = ofSegments (walk (top path) ns)

theorem onWay_self (path : String) : OnWay path (keyOf path) := ⟨parts path, List.prefix_refl _, rfl⟩

theorem OnWay.mono {path other key : String} (htop : top other = top path) (hparts : parts other <+: parts path)
    (h : OnWay other key) : OnWay path key := by
  obtain ⟨ns, hns, hkey⟩ := h
  exact ⟨ns, hns.trans hparts, htop ▸ hkey⟩

/-- What is made on the way to a path. -/
def Way (path key : String) (e : Entry) : Prop := e = .directory ∧ OnWay path key

theorem Way.mono {path other key : String} {e : Entry} (htop : top other = top path)
    (hparts : parts other <+: parts path) (h : Way other key e) : Way path key e :=
  ⟨h.1, h.2.mono htop hparts⟩

/-- A directory is put where no entry is. -/
theorem makeDirectory_eq (h : makeDirectory t path = .ok t') :
    ∃ p name, NewName t path p name ∧ t.entryAt? (p ++ [name]) = none ∧ t' = t.put (p ++ [name]) .directory := by
  obtain ⟨⟨p, name⟩, hname, h⟩ := bind_eq_ok.mp h
  dsimp only at h
  split at h
  · cases h
  · rename_i hentry
    cases h
    exact ⟨p, name, newName_of_eq hname, hentry, rfl⟩

theorem changes_makeDirectory (h : makeDirectory t path = .ok t') : Changes Nowhere (Way path) t t' := by
  obtain ⟨p, name, hnew, hentry, rfl⟩ := makeDirectory_eq h
  have hnone : KeyMap.get? t (ofSegments (p ++ [name])) = none := by
    rw [get?_eq_entry (by simp [hentry]), hentry]
  have hkey : OnWay path (ofSegments (p ++ [name])) := hnew.placeOf_eq ▸ onWay_self path
  exact .insert t (.inr hnone) ⟨rfl, hkey⟩

theorem changes_makeOrFind (t : FileTree) (path : String) : Changes Nowhere (Way path) t (t.makeOrFind path).1 := by
  unfold makeOrFind
  cases hmake : makeDirectory t path with
  | ok t' => exact changes_makeDirectory hmake
  | error e =>
    dsimp only
    split
    · exact .refl t
    · exact .refl t

theorem changes_makeDirectories (t : FileTree) (path : String) (steps : Nat) :
    Changes Nowhere (Way path) t (t.makeDirectories path steps).1 := by
  induction steps generalizing t path with
  | zero => exact .refl t
  | succ steps ih =>
    unfold makeDirectories
    split
    · exact .refl t
    · split
      · exact .refl t
      · rename_i parent _ hparent
        -- what is made for the parent is on the way to the path
        obtain ⟨htop, hparts⟩ := parts_parent hparent
        have habove : Changes Nowhere (Way path) t (t.makeDirectories parent steps).1 :=
          (ih t parent).mono (fun _ => id) fun _ _ => .mono htop (hparts.trans (List.dropLast_prefix _))
        split
        · rename_i t₁ e hrest
          rw [hrest] at habove
          exact habove
        · rename_i t₁ hrest
          rw [hrest] at habove
          exact habove.trans (changes_makeOrFind t₁ path)
      · exact changes_makeOrFind t path

theorem changes_ensureDirectory (t : FileTree) (path : String) :
    Changes Nowhere (Way path) t (t.ensureDirectory path).1 := changes_makeDirectories t path _

/-! ## Files -/

/-- A file is put at the place of its path, where a name can be put and is not that of a directory. -/
theorem writeFile_eq_ok {content : ByteArray} :
    writeFile t path content = .ok t' ↔ ∃ p name, NewName t path p name ∧ Path.endsInSlash path = false ∧
      t.entryAt? (p ++ [name]) ≠ some .directory ∧ t' = KeyMap.insert (keyOf path) (.file content) t := by
  constructor
  · intro h
    obtain ⟨⟨p, name⟩, hname, h⟩ := bind_eq_ok.mp h
    have hnew := newName_of_eq hname
    dsimp only at h
    split at h
    · cases h
    · rename_i hslash
      split at h
      · cases h
      · rename_i hentry
        cases h
        refine ⟨p, name, hnew, Bool.eq_false_iff.mpr hslash, hentry, ?_⟩
        rw [keyOf, hnew.placeOf_eq]
        rfl
  · intro h
    obtain ⟨p, name, hnew, hslash, hentry, rfl⟩ := h
    simp only [writeFile, hnew.newName_eq, bind, Except.bind, hslash, Bool.false_eq_true, if_false]
    rw [keyOf, hnew.placeOf_eq]
    rfl

/-- What is found is at the place of its path. -/
theorem entryAt?_of_isThere (h : t.isThere path = .ok true) : ∃ e, t.entryAt? (placeOf path) = some e := by
  unfold isThere at h
  split at h
  · rename_i found hstat
    obtain ⟨⟨start, ns⟩, hnames, hstat⟩ := bind_eq_ok.mp hstat
    obtain ⟨rfl, rfl⟩ := names_eq hnames
    obtain ⟨p, hfollow, hstat⟩ := bind_eq_ok.mp hstat
    rw [placeOf, ← follow_walk hfollow]
    cases hentry : t.entryAt? p with
    | none =>
      rw [hentry] at hstat
      cases hstat
    | some e => exact ⟨e, rfl⟩
  · cases h
  · cases h

theorem stat_of_not_isThere (h : t.isThere path = .ok false) : t.stat path = .error .notFound := by
  unfold isThere at h
  split at h
  · cases h
  · assumption
  · cases h

theorem NewName.stat_ne_notFound {p : Place} {name : String} {e : Entry} (h : NewName t path p name)
    (hentry : t.entryAt? (p ++ [name]) = some e) : t.stat path ≠ .error .notFound := by
  unfold stat
  rw [h.names]
  simp only [bind, Except.bind, h.follow_parts, hentry]
  cases e with
  | directory => nofun
  | file content =>
    dsimp only
    split
    · nofun
    · nofun

/-- Where nothing is found, and an entry can be put, there is none. -/
theorem get?_of_not_isThere {p : Place} {name : String} (hnew : NewName t path p name)
    (h : t.isThere path = .ok false) :
    KeyMap.get? t (keyOf path) = none := by
  rw [keyOf, hnew.placeOf_eq]
  cases hentry : t.entryAt? (p ++ [name]) with
  | none => rw [get?_eq_entry (by simp [hentry]), hentry]
  | some e => exact absurd (stat_of_not_isThere h) (hnew.stat_ne_notFound hentry)

end FileTree

end ClientGen
