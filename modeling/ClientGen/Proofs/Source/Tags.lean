import ClientGen.Go.Declare
import ClientGen.Proofs.Source.Literals

/-
  ClientGen.Proofs.Source.Tags — the tags of struct fields, as the JSON package of Go takes them.

  A tag is a literal. What it says is `json:` and a value in quotes, and the value has the name of
  the field and its options, with commas between them. A field with the value `-` is left out.
  - A key with a quote, a backslash or a back quote is escaped twice and keeps all its characters.
    Any other key stands in a raw literal as it is, which drops its carriage returns, and within
    quotes that must not have a line feed (`jsonValue_structTag`).
  - A comma ends the name in either case. So the tag denotes its key exactly when none of these
    gets in the way (`structTag_denotes_iff`). A required field with the key `-` is left out
    (`dash_not_denoted`).
-/

namespace ClientGen.Source

/-! ## Reading a tag -/

/-- What is read, if nothing follows it. -/
def whole? (r : List Char × List Char) : Option (List Char) := if r.2 = [] then some r.1 else none

def literalValue? (source : List Char) : Option (List Char) := (readLiteral source).bind whole?

/-- The text in quotes that makes up all of a source. -/
def unquote? : List Char → Option (List Char)
  | '"' :: rest => (readQuoted rest).bind whole?
  | _ => none

/-- The value behind the key `json:` of a tag. -/
def jsonValue? : List Char → Option (List Char)
  | 'j' :: 's' :: 'o' :: 'n' :: ':' :: rest => unquote? rest
  | _ => none

structure JsonField where
  name : List Char
  options : List (List Char)

/-- The field that a value describes, unless it says that there is none. -/
def JsonField.ofValue? (value : List Char) : Option JsonField :=
  if value = ['-'] then none
  else some ⟨value.takeWhile (· ≠ ','), ((value.dropWhile (· ≠ ',')).drop 1).splitOn ','⟩

def jsonField? (tag : String) : Option JsonField :=
  ((literalValue? tag.toList).bind jsonValue?).bind JsonField.ofValue?

/-- A tag names the key, and says whether the field may be missing. -/
def Denotes (tag key : String) (optional : Bool) : Prop :=
  ∃ f, jsonField? tag = some f ∧ f.name = key.toList ∧ ("omitempty".toList ∈ f.options ↔ optional = true)

/-! ## Writing a tag -/

/-- The characters for which a key is escaped. -/
def specials : List Char := ['\x60', '"', '\\']

/-- The option behind the key. -/
def optionText (optional : Bool) : List Char := if optional then ",omitempty".toList else []

/-- What comes back of a value: all of it if it is escaped, or else what a raw literal keeps of it. -/
def kept? (value : List Char) : Option (List Char) :=
  if value.any specials.contains then some value
  else if '\n' ∈ value then none
  else some (value.filter (· ≠ '\r'))

variable {cs : List Char} {optional : Bool}

theorem any_specials : cs.any specials.contains = true ↔ ∃ c ∈ cs, c ∈ specials := by
  simp

theorem readRaw_append (h : '\x60' ∉ cs) (rest : List Char) :
    readRaw (cs ++ '\x60' :: rest) = some (cs.filter (· ≠ '\r'), rest) := by
  induction cs with
  | nil => simp [readRaw]
  | cons c cs ih =>
    simp only [List.mem_cons, not_or] at h
    have hne : c ≠ '\x60' := Ne.symm h.1
    by_cases hreturn : c = '\r'
    · simp [readRaw, hreturn, ih h.2]
    · simp [readRaw, hne, hreturn, ih h.2, before]

/-- Without escapes the text between quotes is read as it stands, unless the line ends in it. -/
theorem readQuoted_append (hquote : '"' ∉ cs) (hescape : '\\' ∉ cs) (rest : List Char) :
    readQuoted (cs ++ '"' :: rest) = if '\n' ∈ cs then none else some (cs, rest) := by
  induction cs with
  | nil => simp [readQuoted]
  | cons c cs ih =>
    simp only [List.mem_cons, not_or] at hquote hescape
    have hrest := ih hquote.2 hescape.2
    by_cases hfeed : c = '\n'
    · simp [hfeed, readQuoted]
    · rw [List.cons_append, readQuoted_plain (Ne.symm hquote.1) (Ne.symm hescape.1) hfeed, hrest]
      by_cases hmem : '\n' ∈ cs
      · simp [hmem]
      · simp [hmem, Ne.symm hfeed, before]

theorem literalValue?_literal (text : String) : literalValue? (Go.literal text).toList = some text.toList := by
  have hread := readLiteral_literal text []
  rw [List.append_nil] at hread
  simp [literalValue?, hread, whole?]

theorem unquote?_literal (text : String) : unquote? (Go.literal text).toList = some text.toList := by
  have hread := readQuoted_escapes text.toList []
  simp [toList_literal, unquote?, hread, whole?]

theorem literalValue?_raw (h : '\x60' ∉ cs) :
    literalValue? ('\x60' :: (cs ++ ['\x60'])) = some (cs.filter (· ≠ '\r')) := by
  simp [literalValue?, readLiteral, readRaw_append h, whole?]

theorem unquote?_quoted (hquote : '"' ∉ cs) (hescape : '\\' ∉ cs) :
    unquote? ('"' :: (cs ++ ['"'])) = if '\n' ∈ cs then none else some cs := by
  by_cases hfeed : '\n' ∈ cs
  · simp [unquote?, readQuoted_append hquote hescape, hfeed]
  · simp [unquote?, readQuoted_append hquote hescape, hfeed, whole?]

/-- The key and its option, as a tag brings them back. -/
theorem jsonValue_structTag (key : String) (optional : Bool) :
    (literalValue? (Go.structTag key optional).toList).bind jsonValue? = kept? (key.toList ++ optionText optional) := by
  have hvalue : (if optional then key ++ ",omitempty" else key).toList = key.toList ++ optionText optional := by
    cases optional <;> simp [optionText]
  unfold Go.structTag
  dsimp only
  generalize (if optional then key ++ ",omitempty" else key) = value at hvalue
  rw [← hvalue]
  have hany : (value.toList.any fun c => c == '\x60' || c == '"' || c == '\\') = true ↔
      ∃ c ∈ value.toList, c ∈ specials := by
    simp [specials, or_assoc]
  by_cases hspecial : ∃ c ∈ value.toList, c ∈ specials
  · rw [if_pos (hany.mpr hspecial), literalValue?_literal, kept?, if_pos (any_specials.mpr hspecial)]
    simp [jsonValue?, unquote?_literal]
  · rw [if_neg (mt hany.mp hspecial), kept?, if_neg (mt any_specials.mp hspecial)]
    have hplain : ∀ c ∈ specials, c ∉ value.toList := fun c hc hmem => hspecial ⟨c, hmem, hc⟩
    have hraw : '\x60' ∉ "json:\"".toList ++ value.toList ++ ['"'] := by
      simpa using hplain '\x60' (by decide)
    have htag : ("\x60json:\"" ++ value ++ "\"\x60").toList =
        '\x60' :: ("json:\"".toList ++ value.toList ++ ['"'] ++ ['\x60']) := by
      simp
    have hkept : ∀ d ∈ specials, d ∉ value.toList.filter (· ≠ '\r') := fun d hd hmem =>
      hplain d hd (List.mem_filter.mp hmem).1
    have hunquote := unquote?_quoted (hkept '"' (by decide)) (hkept '\\' (by decide))
    rw [htag, literalValue?_raw hraw]
    simpa [jsonValue?] using hunquote

/-! ## Fields -/

/-- The option has none of the characters that a tag escapes or loses. -/
theorem mem_append_optionText {c : Char} (hc : c ∈ '\n' :: '\r' :: specials) :
    c ∈ cs ++ optionText optional ↔ c ∈ cs := by
  have hall : ∀ d ∈ '\n' :: '\r' :: specials, d ∉ optionText optional := by
    cases optional <;> simp [specials, optionText]
  simp [hall c hc]

theorem any_specials_append :
    (cs ++ optionText optional).any specials.contains = true ↔ ∃ c ∈ cs, c ∈ specials := by
  rw [any_specials]
  constructor
  · intro ⟨c, hmem, hc⟩
    exact ⟨c, (mem_append_optionText (List.mem_cons_of_mem _ (List.mem_cons_of_mem _ hc))).mp hmem, hc⟩
  · intro ⟨c, hmem, hc⟩
    exact ⟨c, List.mem_append_left _ hmem, hc⟩

theorem kept?_of_intact (h : (∃ c ∈ cs, c ∈ specials) ∨ '\n' ∉ cs ∧ '\r' ∉ cs) :
    kept? (cs ++ optionText optional) = some (cs ++ optionText optional) := by
  by_cases hspecial : ∃ c ∈ cs, c ∈ specials
  · rw [kept?, if_pos (any_specials_append.mpr hspecial)]
  · obtain ⟨hfeed, hreturn⟩ := h.resolve_left hspecial
    have hfilter : (cs ++ optionText optional).filter (· ≠ '\r') = cs ++ optionText optional := by
      refine List.filter_eq_self.mpr ?_
      intro c hc
      have hne : c ≠ '\r' := fun heq => hreturn ((mem_append_optionText (by decide)).mp (heq ▸ hc))
      simpa using hne
    rw [kept?, if_neg (mt any_specials_append.mp hspecial), if_neg (mt (mem_append_optionText (by decide)).mp hfeed),
      hfilter]

/-- Of a key that nothing makes the tag escape, a line feed leaves nothing and no carriage return is left. -/
theorem of_kept? {w : List Char} (hplain : ¬ ∃ c ∈ cs, c ∈ specials) (h : kept? (cs ++ optionText optional) = some w) :
    '\n' ∉ cs ∧ '\r' ∉ w := by
  rw [kept?, if_neg (mt any_specials_append.mp hplain)] at h
  by_cases hfeed : '\n' ∈ cs ++ optionText optional
  · rw [if_pos hfeed] at h
    cases h
  · rw [if_neg hfeed] at h
    cases h
    refine ⟨mt (mem_append_optionText (by decide)).mpr hfeed, ?_⟩
    simp

/-- A value without a comma in its key is cut behind the key. -/
theorem ofValue?_append (hcomma : ',' ∉ cs) (hdash : ¬ (cs = ['-'] ∧ optional = false)) :
    ∃ f, JsonField.ofValue? (cs ++ optionText optional) = some f ∧ f.name = cs ∧
      ("omitempty".toList ∈ f.options ↔ optional = true) := by
  have hne : cs ++ optionText optional ≠ ['-'] := by
    cases optional with
    | false => simpa [optionText] using hdash
    | true => cases cs <;> simp [optionText]
  have hall : ∀ c ∈ cs, decide (c ≠ ',') = true := by
    intro c hc
    exact decide_eq_true fun heq => hcomma (heq ▸ hc)
  refine ⟨_, if_neg hne, ?_, ?_⟩
  · have htext : (optionText optional).takeWhile (· ≠ ',') = [] := by cases optional <;> decide
    show (cs ++ optionText optional).takeWhile (· ≠ ',') = cs
    rw [List.takeWhile_append_of_pos hall, htext, List.append_nil]
  · show "omitempty".toList ∈ (((cs ++ optionText optional).dropWhile (· ≠ ',')).drop 1).splitOn ',' ↔ _
    rw [List.dropWhile_append_of_pos hall]
    cases optional <;> decide

/-- The name that is read of a value is the beginning of it, without a comma. -/
theorem name_of_ofValue? {value : List Char} {f : JsonField} (h : JsonField.ofValue? value = some f) :
    value ≠ ['-'] ∧ ',' ∉ f.name ∧ ∀ c ∈ f.name, c ∈ value := by
  unfold JsonField.ofValue? at h
  by_cases hdash : value = ['-']
  · rw [if_pos hdash] at h
    cases h
  · rw [if_neg hdash] at h
    cases h
    refine ⟨hdash, ?_, fun c hc => (List.takeWhile_sublist _).mem hc⟩
    intro hmem
    have hall := List.all_eq_true.mp (List.all_takeWhile (p := (· ≠ ',')) (l := value)) ',' hmem
    simp at hall

theorem jsonField?_structTag (key : String) (optional : Bool) :
    jsonField? (Go.structTag key optional) = (kept? (key.toList ++ optionText optional)).bind JsonField.ofValue? := by
  rw [jsonField?, jsonValue_structTag]

/-- A tag denotes its key unless the key has a comma, is a dash that is all of the value, or has a
    line feed or a carriage return that nothing makes the tag escape. -/
theorem structTag_denotes_iff (key : String) (optional : Bool) :
    Denotes (Go.structTag key optional) key optional ↔
      ',' ∉ key.toList ∧ ¬ (key = "-" ∧ optional = false) ∧
        ((∃ c ∈ key.toList, c ∈ specials) ∨ '\n' ∉ key.toList ∧ '\r' ∉ key.toList) := by
  rw [Denotes, jsonField?_structTag]
  constructor
  · intro ⟨f, hf, hname, _⟩
    obtain ⟨w, hw, hfield⟩ := Option.bind_eq_some_iff.mp hf
    obtain ⟨hdash, hcomma, hpart⟩ := name_of_ofValue? hfield
    rw [hname] at hcomma hpart
    refine ⟨hcomma, ?_, ?_⟩
    · intro ⟨hkey, hrequired⟩
      subst hkey hrequired
      have hwhole : kept? ("-".toList ++ optionText false) = some ['-'] := by
        simp [kept?, specials, optionText]
      rw [hwhole, Option.some.injEq] at hw
      exact hdash hw.symm
    · by_cases hspecial : ∃ c ∈ key.toList, c ∈ specials
      · exact .inl hspecial
      · obtain ⟨hfeed, hreturn⟩ := of_kept? hspecial hw
        exact .inr ⟨hfeed, fun hmem => hreturn (hpart _ hmem)⟩
  · intro ⟨hcomma, hdash, hintact⟩
    have hdash' : ¬ (key.toList = ['-'] ∧ optional = false) := by
      intro ⟨hkey, hrequired⟩
      exact hdash ⟨String.toList_inj.mp hkey, hrequired⟩
    rw [kept?_of_intact hintact]
    exact ofValue?_append hcomma hdash'

/-- A required field with this key is left out. -/
theorem dash_not_denoted : ¬ Denotes (Go.structTag "-" false) "-" false := by
  intro ⟨f, hf, _⟩
  have hnone : jsonField? (Go.structTag "-" false) = none := by decide
  rw [hnone] at hf
  cases hf

end ClientGen.Source
