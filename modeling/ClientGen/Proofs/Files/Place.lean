import Mathlib
import ClientGen.Files.Tree

/-
  ClientGen.Proofs.Files.Place — where paths lead.

  A tree follows a path name by name. If it gets to the end, it is at a place that the path alone
  decides: `.` stays and `..` goes up (`follow_walk`). So a path has a place whatever the tree
  (`placeOf`).
  - The names of a path in a directory are those of the directory and one more (`parts_join`).
  - The names of a parent are a prefix of those of the path, without the last (`parts_parent`).
  - Two names in one directory have different keys (`keyIn_inj`).
-/

namespace ClientGen

namespace Path

/-! ## Segments -/

theorem slash_not_mem_splitOn {cs part : List Char} (h : part ∈ cs.splitOn '/') : '/' ∉ part := by
  induction cs generalizing part with
  | nil =>
    rw [List.splitOn_nil, List.mem_singleton] at h
    rw [h]
    exact List.not_mem_nil
  | cons c rest ih =>
    rw [List.splitOn_cons_eq_if_modifyHead] at h
    split at h
    · rcases List.mem_cons.mp h with rfl | h
      · exact List.not_mem_nil
      · exact ih h
    · rename_i hc
      have hne : '/' ≠ c := fun heq => hc (beq_iff_eq.mpr heq.symm)
      cases hsplit : rest.splitOn '/' with
      | nil => exact absurd hsplit (List.splitOn_ne_nil _ _)
      | cons first more =>
        rw [hsplit, List.modifyHead_cons] at h
        rcases List.mem_cons.mp h with rfl | h
        · simp only [List.mem_cons, not_or]
          exact ⟨hne, ih (hsplit ▸ List.mem_cons_self)⟩
        · exact ih (hsplit ▸ List.mem_cons_of_mem _ h)

theorem slash_not_mem_segment {path name : String} (h : name ∈ segments path) : '/' ∉ name.toList := by
  obtain ⟨part, hpart, rfl⟩ := List.mem_map.mp h
  rw [String.toList_ofList]
  exact slash_not_mem_splitOn hpart

theorem toList_ofSegments (names : List String) :
    (ofSegments names).toList = ['/'].intercalate (names.map String.toList) :=
  String.toList_intercalate

theorem segments_ofSegments {names : List String} (hne : names ≠ []) (h : ∀ name ∈ names, '/' ∉ name.toList) :
    segments (ofSegments names) = names := by
  unfold segments
  rw [toList_ofSegments, List.splitOn_intercalate]
  · simp
  · simpa using h
  · simpa using hne

theorem ofSegments_segments (path : String) : ofSegments (segments path) = path := by
  refine String.toList_inj.mp ?_
  rw [toList_ofSegments, segments, List.map_map]
  simp

/-- A path is absolute if its first name is empty and there is another. -/
theorem isAbsolute_ofSegments {first : String} {more : List String} (h : '/' ∉ first.toList) :
    isAbsolute (ofSegments (first :: more)) = (first.isEmpty && !more.isEmpty) := by
  unfold isAbsolute
  rw [toList_ofSegments, List.map_cons]
  cases hfirst : first.toList with
  | nil =>
    rw [String.toList_eq_nil_iff.mp hfirst]
    cases more <;> simp
  | cons c rest =>
    have hne : c ≠ '/' := by
      rintro rfl
      exact h (hfirst ▸ List.mem_cons_self)
    have hempty : first.isEmpty = false := by
      cases he : first.isEmpty with
      | false => rfl
      | true =>
        rw [String.isEmpty_iff.mp he] at hfirst
        cases hfirst
    cases more <;> simp [hempty, hne]

theorem segments_join {base name : String} (hname : isAbsolute name = false) (hslash : '/' ∉ name.toList) :
    (segments (join base name)).filter (!·.isEmpty) =
      (segments base).filter (!·.isEmpty) ++ [name].filter (!·.isEmpty) := by
  have hself : name.toList.splitOn '/' = [name.toList] := List.splitOn_eq_singleton hslash
  -- a slash between the two texts, and none in the second, adds the second as a name
  have hsplit : ∀ cs : List Char, (cs ++ '/' :: name.toList).splitOn '/' = cs.splitOn '/' ++ [name.toList] := by
    intro cs
    rw [List.splitOn_append_cons_self, hself]
  unfold join
  rw [hname, Bool.false_or]
  split
  · rename_i hbase
    rw [String.isEmpty_iff.mp hbase]
    simp [segments, hself]
  · split
    · rename_i hend
      obtain ⟨before, hbefore⟩ := List.getLast?_eq_some_iff.mp (beq_iff_eq.mp hend)
      have hempty : before.splitOn '/' ++ [[]] = base.toList.splitOn '/' := by
        rw [hbefore, List.splitOn_append_cons_self, List.splitOn_nil]
      unfold segments
      rw [String.toList_append, ← hempty, hbefore, List.append_assoc, List.singleton_append, hsplit]
      simp
    · unfold segments
      rw [String.toList_append, String.toList_append, List.append_assoc]
      simp [hsplit]

end Path

namespace FileTree

open ClientGen.Path (segments ofSegments isAbsolute join)

/-- One step in the tree and another end well if both do. -/
theorem bind_eq_ok {ε : Type} {x : Except ε α} {next : α → Except ε β} {b : β} :
    (x >>= next) = .ok b ↔ ∃ a, x = .ok a ∧ next a = .ok b := by
  cases x with
  | ok a => simp [bind, Except.bind]
  | error e => simp [bind, Except.bind]

/-! ## Places -/

/-- Where a path starts. -/
def top (path : String) : Place := if isAbsolute path then [""] else []

/-- The names of a path. -/
def parts (path : String) : List String := (segments path).filter (!·.isEmpty)

/-- Where names lead from a place, with every directory on the way taken for granted. -/
def walk (p : Place) : List String → Place
  | [] => p
  | name :: rest =>
    if name = "." then walk p rest
    else if name = ".." then walk (if isTop p then p else p.dropLast) rest
    else walk (p ++ [name]) rest

def placeOf (path : String) : Place := walk (top path) (parts path)

/-- A name that stands for an entry of its directory. -/
structure PlainName (name : String) : Prop where
  nonempty : name.isEmpty = false
  noSlash : '/' ∉ name.toList
  notSelf : name ≠ "."
  notUp : name ≠ ".."

theorem walk_append (p : Place) (ns more : List String) : walk p (ns ++ more) = walk (walk p ns) more := by
  induction ns generalizing p with
  | nil => rfl
  | cons name rest ih =>
    simp only [List.cons_append, walk]
    split
    · exact ih p
    · split
      · exact ih _
      · exact ih _

theorem walk_name (p : Place) {name : String} (hself : name ≠ ".") (hup : name ≠ "..") :
    walk p [name] = p ++ [name] := by
  simp [walk, hself, hup]

theorem follow_walk {t : FileTree} {p q : Place} {ns : List String} (h : follow t p ns = .ok q) : q = walk p ns := by
  induction ns generalizing p with
  | nil =>
    cases h
    rfl
  | cons name rest ih =>
    obtain ⟨-, -, h⟩ := bind_eq_ok.mp h
    unfold walk
    split at h
    · rename_i hself
      rw [if_pos hself]
      exact ih h
    · rename_i hself
      rw [if_neg hself]
      split at h
      · rename_i hup
        rw [if_pos hup]
        exact ih h
      · rename_i hup
        rw [if_neg hup]
        split at h
        · cases h
        · exact ih h

theorem names_eq {path : String} {p : Place} {ns : List String} (h : names path = .ok (p, ns)) :
    p = top path ∧ ns = parts path := by
  unfold names at h
  split at h
  · cases h
  · split at h
    · cases h
    · split at h
      · cases h
      · cases h
        exact ⟨rfl, rfl⟩

/-! ## Names in a directory -/

section

variable {name : String}

theorem PlainName.isAbsolute_eq_false (h : PlainName name) : isAbsolute name = false := by
  unfold isAbsolute
  cases hchars : name.toList with
  | nil => rfl
  | cons c rest =>
    have hne : c ≠ '/' := by
      rintro rfl
      exact h.noSlash (hchars ▸ List.mem_cons_self)
    simpa using hne

theorem top_join (directory : String) (h : PlainName name) : top (join directory name) = top directory := by
  unfold join
  rw [h.isAbsolute_eq_false, Bool.false_or]
  split
  · rename_i hempty
    rw [String.isEmpty_iff.mp hempty, top, h.isAbsolute_eq_false]
    rfl
  · rename_i hempty
    have hne : directory.toList ≠ [] := by
      simpa [String.isEmpty_iff] using hempty
    obtain ⟨c, rest, hchars⟩ := List.exists_cons_of_ne_nil hne
    split <;> simp [top, isAbsolute, hchars]

theorem parts_join (directory : String) (h : PlainName name) :
    parts (join directory name) = parts directory ++ [name] := by
  unfold parts
  rw [Path.segments_join h.isAbsolute_eq_false h.noSlash]
  simp [h.nonempty]

theorem placeOf_join (directory : String) (h : PlainName name) :
    placeOf (join directory name) = placeOf directory ++ [name] := by
  unfold placeOf
  rw [top_join directory h, parts_join directory h, walk_append, walk_name _ h.notSelf h.notUp]

end

/-- A place is made of names. -/
theorem slash_not_mem_walk {p : Place} {ns : List String} (hp : ∀ n ∈ p, '/' ∉ n.toList)
    (hns : ∀ n ∈ ns, '/' ∉ n.toList) : ∀ n ∈ walk p ns, '/' ∉ n.toList := by
  induction ns generalizing p with
  | nil => exact hp
  | cons name rest ih =>
    obtain ⟨hname, hrest⟩ := List.forall_mem_cons.mp hns
    unfold walk
    split
    · exact ih hp hrest
    · split
      · split
        · exact ih hp hrest
        · exact ih (fun n hn => hp n (List.mem_of_mem_dropLast hn)) hrest
      · exact ih (List.forall_mem_append.mpr ⟨hp, List.forall_mem_singleton.mpr hname⟩) hrest

theorem slash_not_mem_placeOf {path n : String} (h : n ∈ placeOf path) : '/' ∉ n.toList := by
  refine slash_not_mem_walk ?_ ?_ n h
  · unfold top
    split <;> simp
  · intro m hm
    exact Path.slash_not_mem_segment (List.mem_filter.mp hm).1

/-- The key of the place of a path. -/
def keyOf (path : String) : String := ofSegments (placeOf path)

/-- The key of a name in a directory. -/
def keyIn (directory name : String) : String := ofSegments (placeOf directory ++ [name])

theorem keyOf_join {name : String} (directory : String) (h : PlainName name) :
    keyOf (join directory name) = keyIn directory name := by
  rw [keyOf, placeOf_join directory h, keyIn]

theorem segments_keyIn {name : String} (directory : String) (h : PlainName name) :
    segments (keyIn directory name) = placeOf directory ++ [name] := by
  refine Path.segments_ofSegments (by simp) (List.forall_mem_append.mpr ⟨?_, List.forall_mem_singleton.mpr h.noSlash⟩)
  intro n hn
  exact slash_not_mem_placeOf hn

theorem keyIn_inj {directory name other : String} : keyIn directory name = keyIn directory other ↔ name = other := by
  unfold keyIn ofSegments
  constructor
  · intro h
    cases hplace : placeOf directory with
    | nil => simpa [hplace] using h
    | cons first rest =>
      rw [hplace] at h
      have hne : first :: rest ≠ [] := List.cons_ne_nil _ _
      rw [String.intercalate_append_of_ne_nil hne (List.cons_ne_nil _ _),
        String.intercalate_append_of_ne_nil hne (List.cons_ne_nil _ _)] at h
      simpa using h
  · rintro rfl
    rfl

/-! ## Parents -/

theorem top_ofSegments {first : String} {more : List String} (h : '/' ∉ first.toList) :
    top (ofSegments (first :: more)) = if first.isEmpty && !more.isEmpty then [""] else [] := by
  rw [top, Path.isAbsolute_ofSegments h]

theorem parts_ofSegments {first : String} {more : List String} (hfirst : '/' ∉ first.toList)
    (hmore : ∀ name ∈ more, '/' ∉ name.toList) :
    parts (ofSegments (first :: more)) = (first :: more).filter (!·.isEmpty) := by
  unfold parts
  rw [Path.segments_ofSegments (List.cons_ne_nil _ _) (List.forall_mem_cons.mpr ⟨hfirst, hmore⟩)]

theorem prefix_trimmed (ns : List String) : Path.trimmed ns <+: ns :=
  List.rdropWhile_prefix (fun n : String => n.isEmpty || n == ".") ns

/-- What is left by trimming ends in a name. -/
theorem exists_last_of_trimmed {ns : List String} (h : (Path.trimmed ns).isEmpty = false) :
    ∃ above last, Path.trimmed ns = above ++ [last] ∧ last.isEmpty = false := by
  have hne : Path.trimmed ns ≠ [] := by simpa using h
  refine ⟨(Path.trimmed ns).dropLast, (Path.trimmed ns).getLast hne, (List.dropLast_append_getLast hne).symm, ?_⟩
  have hlast := List.rdropWhile_last_not (fun n : String => n.isEmpty || n == ".") ns hne
  simp only [Bool.or_eq_true, not_or, Bool.not_eq_true] at hlast
  exact hlast.1

/-- What is trimmed in front of the last name has no more names than there are in front of it. -/
theorem names_trimmed_prefix (first : String) (above junk : List String) {last : String} (hlast : last.isEmpty = false) :
    (first :: Path.trimmed above).filter (!·.isEmpty) <+:
      ((first :: (above ++ last :: junk)).filter (!·.isEmpty)).dropLast := by
  have hparts : (first :: (above ++ last :: junk)).filter (!·.isEmpty) =
      (first :: above).filter (!·.isEmpty) ++ last :: junk.filter (!·.isEmpty) := by
    rw [← List.cons_append, List.filter_append]
    simp [hlast]
  rw [hparts, List.dropLast_append_of_ne_nil (List.cons_ne_nil _ _)]
  refine List.IsPrefix.trans ?_ (List.prefix_append _ _)
  exact ((List.prefix_cons_inj first).mpr (prefix_trimmed above)).filter _

/-- The parent of a path is empty, if the path is one name with nothing meant behind it, or else
    what stands in front of the last name. -/
theorem parent?_eq_some {path parent : String} (h : Path.parent? path = some parent) :
    ∃ first more, path = ofSegments (first :: more) ∧ (∀ name ∈ first :: more, '/' ∉ name.toList) ∧
      (first.isEmpty = false ∧ parent = "" ∨
        ∃ above last junk, more = above ++ last :: junk ∧ last.isEmpty = false ∧
          parent = if first.isEmpty && (Path.trimmed above).isEmpty then "/"
            else ofSegments (first :: Path.trimmed above)) := by
  unfold Path.parent? at h
  split at h
  · cases h
  · rename_i first more hsegments
    have hpath : path = ofSegments (first :: more) := by rw [← hsegments, Path.ofSegments_segments]
    refine ⟨first, more, hpath, fun name hname => Path.slash_not_mem_segment (hsegments ▸ hname), ?_⟩
    dsimp only at h
    split at h
    · split at h
      · cases h
      · rename_i hnonempty
        cases h
        exact .inl ⟨Bool.eq_false_iff.mpr hnonempty, rfl⟩
    · rename_i hnames
      obtain ⟨above, last, hlast, hnonempty⟩ := exists_last_of_trimmed (Bool.eq_false_iff.mpr hnames)
      obtain ⟨junk, hjunk⟩ := prefix_trimmed more
      rw [hlast, List.dropLast_concat] at h
      refine .inr ⟨above, last, junk, ?_, hnonempty, (Option.some.inj h).symm⟩
      rw [← hjunk, hlast, List.append_assoc]
      rfl

/-- A parent starts where its path starts and lacks at least the last name of it. -/
theorem parts_parent {path parent : String} (h : Path.parent? path = some parent) :
    top parent = top path ∧ parts parent <+: (parts path).dropLast := by
  obtain ⟨first, more, rfl, hslash, hparent⟩ := parent?_eq_some h
  obtain ⟨hfirst, hmore⟩ := List.forall_mem_cons.mp hslash
  rw [top_ofSegments hfirst, parts_ofSegments hfirst hmore]
  rcases hparent with ⟨hnonempty, rfl⟩ | ⟨above, last, junk, rfl, hlast, rfl⟩
  · rw [if_neg (by simp [hnonempty])]
    exact ⟨rfl, List.nil_prefix⟩
  · have hbefore : ∀ name ∈ Path.trimmed above, '/' ∉ name.toList := fun name hname =>
      hmore name (List.mem_append_left _ ((prefix_trimmed above).subset hname))
    have hnonempty : (above ++ last :: junk).isEmpty = false := by simp
    split
    · rename_i hroot
      simp only [Bool.and_eq_true] at hroot
      rw [hroot.1, hnonempty]
      exact ⟨rfl, List.nil_prefix⟩
    · rename_i hroot
      rw [top_ofSegments hfirst, parts_ofSegments hfirst hbefore]
      refine ⟨?_, names_trimmed_prefix first above junk hlast⟩
      -- only a path that starts with a slash has an empty first name and others behind it
      cases hempty : first.isEmpty with
      | false => rfl
      | true =>
        rw [hempty, Bool.true_and, Bool.not_eq_true] at hroot
        rw [hnonempty, hroot]

end FileTree

end ClientGen
