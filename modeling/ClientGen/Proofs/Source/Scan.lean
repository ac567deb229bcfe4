import ClientGen.Proofs.Comments.Lines
import ClientGen.Proofs.Source.Literals

/-
  ClientGen.Proofs.Source.Scan — the packages that Go source names.

  A file uses a package if a word in its code is the package's name, with a dot behind it and none
  in front. What stands in comments and in texts is no code. So source is read character by
  character (`step`, `scan`), and the reader is in code, in a comment or in a text.
  - `Scans pre text post used`: wherever `pre` holds of the reader, `text` takes it to where
    `post` holds, and names the packages `used` on the way. Texts are read one after another
    (`Scans.append`).
  - A name without marks of Go names nothing (`scans_unmarked`), nor does a literal (`scans_literal`).
-/

namespace ClientGen.Source

/-- Where the reader is. -/
inductive Mode where
  /-- In code, with the word read so far and whether a dot stands in front of it. -/
  | code (afterDot : Bool) (word : List Char)
  /-- Behind a slash that may begin a comment. -/
  | slash
  | line
  | block (star : Bool)
  /-- In a text, maybe behind a backslash. -/
  | quoted (escaped : Bool)
  | raw
  | rune (escaped : Bool)
  deriving DecidableEq

/-- The packages that generated files use, by name. -/
def packages : List (String × String) :=
  [("context", "context"), ("errors", "errors"), ("fmt", "fmt"), ("http", "net/http"), ("json", "encoding/json"),
    ("strconv", "strconv"), ("time", "time"), ("url", "net/url")]

/-- The import path of a package name. -/
def package? (word : List Char) : Option String := packages.lookup (String.ofList word)

/-- Letters, digits and underscores. Whatever is beyond ASCII counts as a letter. -/
def isWord (c : Char) : Bool := c == '_' || !decide (Separates c)

/-- A character of code, and the package that is named if it is a dot. -/
def stepCode (afterDot : Bool) (word : List Char) (c : Char) : Mode × Option String :=
  if isWord c then (.code afterDot (word ++ [c]), none)
  else if c = '.' then (.code true [], if afterDot then none else package? word)
  else if c = '"' then (.quoted false, none)
  else if c = '\x60' then (.raw, none)
  else if c = '\'' then (.rune false, none)
  else if c = '/' then (.slash, none)
  else (.code false [], none)

def step : Mode → Char → Mode × Option String
  | .code afterDot word, c => stepCode afterDot word c
  | .slash, c =>
    if c = '/' then (.line, none) else if c = '*' then (.block false, none) else stepCode false [] c
  | .line, c => (if c = '\n' then .code false [] else .line, none)
  | .block star, c => (if star && c = '/' then .code false [] else .block (c = '*'), none)
  | .quoted escaped, c =>
    (if escaped then .quoted false else if c = '"' then .code false [] else .quoted (c = '\\'), none)
  | .raw, c => (if c = '\x60' then .code false [] else .raw, none)
  | .rune escaped, c => (if escaped then .rune false else if c = '\'' then .code false [] else .rune (c = '\\'), none)

/-- Where the reader ends, and the packages that are named. -/
def scan (m : Mode) : List Char → Mode × List String
  | [] => (m, [])
  | c :: rest =>
    let (next, used) := step m c
    let (last, more) := scan next rest
    (last, used.toList ++ more)

def start : Mode := .code false []

/-- The import paths of the packages that a source names. -/
def packagesIn (source : String) : List String := (scan start source.toList).2

variable {m m' : Mode} {cs ds : List Char} {text s t : String} {used used' : List String}

theorem scan_cons (m : Mode) (c : Char) (rest : List Char) :
    scan m (c :: rest) = ((scan (step m c).1 rest).1, (step m c).2.toList ++ (scan (step m c).1 rest).2) := rfl

theorem scan_append (m : Mode) (cs ds : List Char) :
    scan m (cs ++ ds) = ((scan (scan m cs).1 ds).1, (scan m cs).2 ++ (scan (scan m cs).1 ds).2) := by
  induction cs generalizing m with
  | nil => rfl
  | cons c rest ih => rw [List.cons_append, scan_cons, ih, scan_cons, List.append_assoc]

/-- Characters that the reader passes in a region without naming anything. -/
theorem scan_of_region {R : Mode → Prop} (hstep : ∀ m, R m → ∀ c ∈ cs, R (step m c).1 ∧ (step m c).2 = none)
    (hm : R m) : R (scan m cs).1 ∧ (scan m cs).2 = [] := by
  induction cs generalizing m with
  | nil => exact ⟨hm, rfl⟩
  | cons c rest ih =>
    obtain ⟨hnext, hnone⟩ := hstep m hm c List.mem_cons_self
    obtain ⟨hlast, hmore⟩ := ih (fun m hm d hd => hstep m hm d (List.mem_cons_of_mem c hd)) hnext
    rw [scan_cons, hnone, hmore]
    exact ⟨hlast, rfl⟩

/-! ## Regions -/

abbrev At (m : Mode) : Mode → Prop := (· = m)

/-- In code, at the beginning of a word. -/
abbrev Fresh : Mode → Prop := At start

def InCode (m : Mode) : Prop := ∃ afterDot word, m = .code afterDot word

/-- In code, where a dot names no package. -/
def Nameless (m : Mode) : Prop := ∃ afterDot word, m = .code afterDot word ∧ (afterDot = true ∨ package? word = none)

/-- Where a line feed leads back to code. -/
def Ended (m : Mode) : Prop := InCode m ∨ m = .line

theorem Nameless.inCode (h : Nameless m) : InCode m := by
  obtain ⟨afterDot, word, rfl, -⟩ := h
  exact ⟨afterDot, word, rfl⟩

theorem inCode_start : InCode start := ⟨false, [], rfl⟩

theorem inCode_of_fresh (h : Fresh m) : InCode m := h ▸ inCode_start

/-! ## Texts -/

/-- The characters of lines, with line feeds between them. -/
inductive Lines : List String → List Char → Prop where
  | last {cs : List Char} : Lines [String.ofList cs] cs
  | next {cs ds : List Char} {line : String} {lines : List String} :
      Lines (line :: lines) ds → Lines (String.ofList cs :: line :: lines) (cs ++ '\n' :: ds)

theorem Lines.intercalate {lines : List String} (h : Lines lines cs) : "\n".intercalate lines = String.ofList cs := by
  induction h with
  | last => rfl
  | @next cs ds line lines _ ih =>
    have hfeed : "\n" = String.ofList ['\n'] := rfl
    rw [String.intercalate_cons_cons, ih, hfeed, ← String.ofList_append, ← String.ofList_append, List.append_assoc]
    rfl

/-- From where `pre` holds a text leads to where `post` holds, and names the packages `used`. -/
def Scans (pre : Mode → Prop) (text : String) (post : Mode → Prop) (used : List String) : Prop :=
  ∀ m, pre m → post (scan m text.toList).1 ∧ ∀ path, path ∈ (scan m text.toList).2 ↔ path ∈ used

namespace Scans

variable {pre pre' mid post post' : Mode → Prop}

theorem nil : Scans pre "" pre [] := fun _ hm => ⟨hm, fun _ => Iff.rfl⟩

theorem append (h : Scans pre s mid used) (h' : Scans mid t post used') : Scans pre (s ++ t) post (used ++ used') := by
  intro m hm
  obtain ⟨hmid, hused⟩ := h m hm
  obtain ⟨hpost, hused'⟩ := h' _ hmid
  rw [String.toList_append, scan_append]
  refine ⟨hpost, ?_⟩
  intro path
  rw [List.mem_append, List.mem_append, hused, hused']

theorem appendSilent (h : Scans pre s mid used) (h' : Scans mid t post []) : Scans pre (s ++ t) post used :=
  List.append_nil used ▸ h.append h'

theorem silentAppend (h : Scans pre s mid []) (h' : Scans mid t post used) : Scans pre (s ++ t) post used :=
  h.append h'

theorem weaken (h : Scans pre s post used) (hpre : ∀ m, pre' m → pre m) (hpost : ∀ m, post m → post' m) :
    Scans pre' s post' used := by
  intro m hm
  obtain ⟨hend, hused⟩ := h m (hpre m hm)
  exact ⟨hpost _ hend, hused⟩

theorem fresh (h : Scans InCode s post used) : Scans Fresh s post used :=
  h.weaken (fun _ => inCode_of_fresh) fun _ => id

theorem inCode (h : Scans pre s Fresh used) : Scans pre s InCode used :=
  h.weaken (fun _ => id) fun _ => inCode_of_fresh

theorem congr (h : Scans pre s post used) (heq : ∀ path, path ∈ used ↔ path ∈ used') : Scans pre s post used' := by
  intro m hm
  obtain ⟨hend, hused⟩ := h m hm
  exact ⟨hend, fun path => (hused path).trans (heq path)⟩

theorem of_scan (h : scan m text.toList = (m', used)) : Scans (At m) text (At m') used := by
  intro m₁ hm
  rw [hm, h]
  exact ⟨rfl, fun _ => Iff.rfl⟩

theorem of_region {R : Mode → Prop} (h : ∀ m, R m → ∀ c ∈ text.toList, R (step m c).1 ∧ (step m c).2 = none) :
    Scans R text R [] := by
  intro m hm
  obtain ⟨hend, hnone⟩ := scan_of_region h hm
  rw [hnone]
  exact ⟨hend, fun _ => Iff.rfl⟩

/-! ### Fixed texts

  The characters of a fixed text are read one after another. A text that begins with a delimiter
  is read in the same way behind any word, one that begins with a line feed also behind a comment,
  and one that begins with a dot behind any word that is no package. -/

variable {c : Char}

theorem lines {texts : List String} (h : Lines texts cs) (hs : Scans pre (String.ofList cs) post used) :
    Scans pre ("\n".intercalate texts) post used := h.intercalate ▸ hs

theorem of_chars (h : scan m cs = (m', used)) : Scans (At m) (String.ofList cs) (At m') used :=
  .of_scan (by rw [String.toList_ofList, h])

/-- Texts are read in the same way from modes that the first character leads to the same place. -/
theorem of_first (hfirst : ∀ m₁, pre m₁ → step m₁ c = step m c) (h : scan m (c :: cs) = (m', used)) :
    Scans pre (String.ofList (c :: cs)) (At m') used := by
  intro m₁ hm
  rw [scan_cons] at h
  rw [String.toList_ofList, scan_cons, hfirst m₁ hm, h]
  exact ⟨rfl, fun _ => Iff.rfl⟩

/-- The first character ends a word and is no dot. -/
theorem of_delimited (h : isWord c = false ∧ c ≠ '.' ∧ scan start (c :: cs) = (m', used)) :
    Scans InCode (String.ofList (c :: cs)) (At m') used := by
  obtain ⟨hword, hdot, hscan⟩ := h
  refine of_first ?_ hscan
  intro m₁ hm
  obtain ⟨afterDot, word, rfl⟩ := hm
  simp [start, step, stepCode, hword, hdot]

theorem of_lineFeed (h : scan start ('\n' :: cs) = (m', used)) :
    Scans Ended (String.ofList ('\n' :: cs)) (At m') used := by
  refine of_first ?_ h
  rintro m₁ (⟨afterDot, word, rfl⟩ | rfl)
  · rfl
  · rfl

theorem of_dot (h : scan (.code true []) ('.' :: cs) = (m', used)) :
    Scans Nameless (String.ofList ('.' :: cs)) (At m') used := by
  refine of_first ?_ h
  intro m₁ hm
  obtain ⟨afterDot, word, rfl, hquiet⟩ := hm
  have hnone : (if afterDot then none else package? word) = none := by
    rcases hquiet with rfl | hnone
    · rfl
    · rw [hnone, ite_self]
  show (_, if afterDot then none else package? word) = _
  rw [hnone]
  rfl

end Scans

/-! ## Names -/

/-- The characters that Go gives a meaning of their own, beside those of words. -/
def marks : List Char := ['.', '"', '\x60', '\'', '/', '\\', '\n']

def Unmarked (s : String) : Prop := ∀ c ∈ s.toList, c ∉ marks

theorem Unmarked.of_chars (h : cs.all (fun c => !marks.contains c) = true) : Unmarked (String.ofList cs) := by
  simpa [Unmarked] using h

theorem Unmarked.append (hs : Unmarked s) (ht : Unmarked t) : Unmarked (s ++ t) := by
  intro c hc
  rcases List.mem_append.mp (String.toList_append ▸ hc) with hc | hc
  · exact hs c hc
  · exact ht c hc

/-- A name without marks ends no text. -/
theorem Unmarked.quotable (h : Unmarked s) : ∀ c ∈ s.toList, c ≠ '"' ∧ c ≠ '\\' := by
  intro c hc
  have hmarks := h c hc
  simp only [marks, List.mem_cons, List.not_mem_nil, or_false, not_or] at hmarks
  exact ⟨hmarks.2.1, hmarks.2.2.2.2.2.1⟩

theorem Unmarked.oneLine (h : Unmarked s) : OneLine s := fun hmem => h _ hmem (by decide)

theorem scans_unmarked (h : Unmarked s) : Scans InCode s InCode [] := by
  refine .of_region ?_
  intro m hm c hc
  obtain ⟨afterDot, word, rfl⟩ := hm
  have hmarks := h c hc
  simp only [marks, List.mem_cons, List.not_mem_nil, or_false, not_or] at hmarks
  obtain ⟨hdot, hquote, hraw, hrune, hslash, -⟩ := hmarks
  simp only [step, stepCode, hdot, hquote, hraw, hrune, hslash, if_false]
  split
  · exact ⟨⟨_, _, rfl⟩, rfl⟩
  · exact ⟨⟨_, _, rfl⟩, rfl⟩

/-- Behind a dot a word may have a dot behind it. -/
theorem scans_member (h : ∀ c ∈ s.toList, isWord c = true) : Scans (At (.code true [])) s Nameless [] := by
  have hregion : Scans (fun m => ∃ word, m = .code true word) s (fun m => ∃ word, m = .code true word) [] := by
    refine .of_region ?_
    intro m hm c hc
    obtain ⟨word, rfl⟩ := hm
    simp only [step, stepCode, h c hc, if_true, and_true]
    exact ⟨_, rfl⟩
  refine hregion.weaken (fun m hm => ⟨[], hm⟩) ?_
  intro m hm
  obtain ⟨word, rfl⟩ := hm
  exact ⟨true, word, rfl, .inl rfl⟩

/-! ## Numbers -/

theorem package?_of_digits {word : List Char} (h : ∀ c ∈ word, c.isDigit = true) : package? word = none := by
  have hletters : ∀ p ∈ packages, p.1.toList.all Char.isDigit = false := by decide
  refine List.lookup_eq_none_iff.mpr ?_
  intro p hp
  refine bne_iff_ne.mpr ?_
  intro hname
  have hletter := hletters p hp
  rw [← hname, String.toList_ofList, List.all_eq_true.mpr h] at hletter
  cases hletter

/-- The dot of a number has digits in front, which are no package. -/
theorem scans_number (h : ∀ c ∈ s.toList, c.isDigit = true ∨ c = '-' ∨ c = '.') : Scans Fresh s InCode [] := by
  have hregion : Scans (fun m => ∃ afterDot word, m = .code afterDot word ∧ ∀ c ∈ word, c.isDigit = true) s
      (fun m => ∃ afterDot word, m = .code afterDot word ∧ ∀ c ∈ word, c.isDigit = true) [] := by
    refine .of_region ?_
    intro m hm c hc
    obtain ⟨afterDot, word, rfl, hword⟩ := hm
    rcases h c hc with hdigit | rfl | rfl
    · have hpart : isWord c = true := by
        have hnot : ¬ Separates c := fun hsep => by
          have hnone := hsep.2.2
          simp [Char.isAlphanum, hdigit] at hnone
        simp [isWord, hnot]
      simp only [step, stepCode, hpart, if_true, and_true]
      refine ⟨_, _, rfl, ?_⟩
      intro d hd
      rcases List.mem_append.mp hd with hd | hd
      · exact hword d hd
      · rwa [List.mem_singleton.mp hd]
    · exact ⟨⟨false, [], rfl, List.forall_mem_nil _⟩, rfl⟩
    · refine ⟨⟨true, [], rfl, List.forall_mem_nil _⟩, ?_⟩
      show (if afterDot then none else package? word) = none
      rw [package?_of_digits hword, ite_self]
  refine hregion.weaken (fun m hm => ⟨false, [], hm, List.forall_mem_nil _⟩) ?_
  intro m hm
  obtain ⟨afterDot, word, rfl, -⟩ := hm
  exact ⟨afterDot, word, rfl⟩

/-! ## Comments and literals -/

theorem scans_comment (h : OneLine s) : Scans (At .line) s (At .line) [] := by
  refine .of_region ?_
  intro m hm c hc
  have hne : c ≠ '\n' := fun heq => h (heq ▸ hc)
  rw [hm]
  simp [step, hne]

theorem scans_quoted (h : ∀ c ∈ s.toList, c ≠ '"' ∧ c ≠ '\\') :
    Scans (At (.quoted false)) s (At (.quoted false)) [] := by
  refine .of_region ?_
  intro m hm c hc
  obtain ⟨hquote, hescape⟩ := h c hc
  rw [hm]
  simp [step, hquote, hescape]

/-- Characters of a literal: none ends it. -/
def Inside (cs : List Char) : Prop := scan (.quoted false) cs = (.quoted false, [])

theorem inside_cons {c : Char} (hquote : c ≠ '"') (hescape : c ≠ '\\') (h : Inside cs) : Inside (c :: cs) := by
  unfold Inside at *
  rw [scan_cons]
  simpa [step, hquote, hescape] using h

theorem inside_escaped (c : Char) (h : Inside cs) : Inside ('\\' :: c :: cs) := h

theorem inside_append (h : Inside cs) (h' : Inside ds) : Inside (cs ++ ds) := by
  rw [Inside, scan_append, h, h']
  rfl

theorem hexDigit_inside (n : Nat) : Json.hexDigit (n % 16) ≠ '"' ∧ Json.hexDigit (n % 16) ≠ '\\' := by
  have hall : ∀ k < 16, Json.hexDigit k ≠ '"' ∧ Json.hexDigit k ≠ '\\' := by decide
  exact hall (n % 16) (Nat.mod_lt n (by decide))

theorem inside_escape (c : Char) : Inside (Go.escape c) := by
  have hdigit (n : Nat) {rest : List Char} (h : Inside rest) : Inside (Json.hexDigit (n % 16) :: rest) :=
    inside_cons (hexDigit_inside n).1 (hexDigit_inside n).2 h
  have hnone : Inside [] := rfl
  rcases escape_cases c with ⟨e, -, hescape⟩ | ⟨-, hescape⟩ | ⟨hquote, hbackslash, -, hescape⟩
  · rw [hescape]
    exact inside_escaped e hnone
  · rw [hescape]
    exact inside_escaped 'u' (hdigit _ (hdigit _ (hdigit _ (hdigit _ hnone))))
  · rw [hescape]
    exact inside_cons hquote hbackslash hnone

theorem inside_escapes (cs : List Char) : Inside (cs.flatMap Go.escape) := by
  induction cs with
  | nil => rfl
  | cons c rest ih => exact inside_append (inside_escape c) ih

theorem scans_literal (s : String) : Scans InCode (Go.literal s) Fresh [] := by
  have hbody : scan (.quoted false) (s.toList.flatMap Go.escape ++ ['"']) = (start, []) := by
    rw [scan_append, inside_escapes]
    rfl
  exact .of_delimited ⟨by decide, by decide, hbody⟩

theorem scans_raw (h : '\x60' ∉ s.toList) : Scans (At .raw) s (At .raw) [] := by
  refine .of_region ?_
  intro m hm c hc
  have hne : c ≠ '\x60' := fun heq => h (heq ▸ hc)
  rw [hm]
  simp [step, hne]

/-! ## Pieces of code -/

/-- Read on its own, a piece of code ends in code. -/
def Settles (s : String) : Prop := InCode (scan start s.toList).1

theorem Scans.settles (h : Scans Fresh s InCode used) : Settles s := (h start rfl).1

theorem Scans.mem_packagesIn (h : Scans Fresh s InCode used) (path : String) : path ∈ packagesIn s ↔ path ∈ used :=
  (h start rfl).2 path

theorem Settles.scans (h : Settles s) : Scans Fresh s InCode (packagesIn s) := by
  intro m hm
  rw [hm]
  exact ⟨h, fun _ => Iff.rfl⟩

/-- A piece of code that names no package. -/
def Silent (s : String) : Prop := Settles s ∧ packagesIn s = []

theorem Silent.scans (h : Silent s) : Scans Fresh s InCode [] := h.2 ▸ h.1.scans

theorem Scans.silent (h : Scans Fresh s InCode []) : Silent s :=
  ⟨h.settles, List.eq_nil_iff_forall_not_mem.mpr fun path => (h.mem_packagesIn path).not.mpr List.not_mem_nil⟩

end ClientGen.Source
