import ClientGen.Go.Query
import ClientGen.Proofs.Names.Closure
import ClientGen.Proofs.Source.Scan

/-
  ClientGen.Proofs.Source.Pieces — what the pieces of generated code name.

  A type names `time` exactly where its text has `time.Time` in it, which is what imports go by
  (`scans_typeName`). Tags, literals and the values of constants name nothing. The text of a query
  value names what its format needs (`scans_formatValue`), and the statement around it no more
  (`scans_queryStatement`).
-/

namespace ClientGen

/-! ## Numbers -/

/-- A character that numbers are written with. -/
def InNumber (c : Char) : Prop := c.isDigit = true ∨ c = '-' ∨ c = '.'

theorem Double.inNumber_positional {digits : List Char} (h : ∀ c ∈ digits, InNumber c) (point : Int) :
    (∀ c ∈ (positional digits point).1, InNumber c) ∧ ∀ c ∈ (positional digits point).2, InNumber c := by
  have hzeros (n : Nat) : ∀ c ∈ zeros n, InNumber c := by
    intro c hc
    rw [List.eq_of_mem_replicate hc]
    exact .inl (by decide)
  unfold positional
  dsimp only
  split
  · exact ⟨hzeros 1, List.forall_mem_append.mpr ⟨hzeros _, h⟩⟩
  · split
    · exact ⟨List.forall_mem_append.mpr ⟨h, hzeros _⟩, List.forall_mem_nil _⟩
    · exact ⟨fun c hc => h c (List.mem_of_mem_take hc), fun c hc => h c (List.mem_of_mem_drop hc)⟩

theorem Double.inNumber_toPlain {x : Double} {c : Char} (h : c ∈ x.toPlain.toList) : InNumber c := by
  have hdigits : ∀ c ∈ (toString x.shortest.1).toList, InNumber c := fun c hc => .inl (isDigit_of_mem_toString hc)
  have hsign : ∀ c ∈ x.signChars, InNumber c := by
    unfold signChars
    split
    · exact List.forall_mem_singleton.mpr (.inr (.inl rfl))
    · exact List.forall_mem_nil _
  have hpoint : ∀ fraction : List Char, (∀ c ∈ fraction, InNumber c) →
      ∀ c ∈ if fraction.isEmpty then [] else '.' :: fraction, InNumber c := by
    intro fraction h
    split
    · exact List.forall_mem_nil _
    · exact List.forall_mem_cons.mpr ⟨.inr (.inr rfl), h⟩
  -- the digits in front of the point and behind it
  have hparts : ∀ parts, parts = (if x.shortest.1 = 0 then (['0'], []) else
        positional (toString x.shortest.1).toList ((toString x.shortest.1).toList.length + x.shortest.2)) →
      (∀ c ∈ parts.1, InNumber c) ∧ ∀ c ∈ parts.2, InNumber c := by
    rintro parts rfl
    split
    · exact ⟨List.forall_mem_singleton.mpr (.inl (by decide)), List.forall_mem_nil _⟩
    · exact inNumber_positional hdigits _
  rw [toPlain, String.toList_ofList] at h
  obtain ⟨hwhole, hfraction⟩ := hparts _ rfl
  rcases List.mem_append.mp h with h | h
  · rcases List.mem_append.mp h with h | h
    · exact hsign c h
    · exact hwhole c h
  · exact hpoint _ hfraction c h

theorem inNumber_toString {n : Int} {c : Char} (h : c ∈ (toString n).toList) : InNumber c := by
  cases n with
  | ofNat m => exact .inl (isDigit_of_mem_toString h)
  | negSucc m =>
    have hneg : toString (Int.negSucc m) = "-" ++ toString (m + 1) := rfl
    rw [hneg, String.toList_append, List.mem_append] at h
    rcases h with h | h
    · exact .inr (.inl (List.mem_singleton.mp h))
    · exact .inl (isDigit_of_mem_toString h)

namespace Go

open Source

/-! ## Types -/

theorem occurs_of_not_mem {c : Char} {needle cs : List Char} (hc : c ∈ needle) (h : c ∉ cs) :
    occurs needle cs = false := by
  induction cs with
  | nil =>
    cases needle with
    | nil => cases hc
    | cons a needle => rfl
  | cons d rest ih =>
    have hprefix : needle.isPrefixOf (d :: rest) = false := by
      rw [Bool.eq_false_iff, ne_eq, List.isPrefixOf_iff_prefix]
      exact fun hpre => h (hpre.subset hc)
    rw [occurs, hprefix, Bool.false_or]
    exact ih fun hmem => h (List.mem_cons_of_mem d hmem)

/-- Nothing is found in front of a text where no end of what stands there goes on as the needle. -/
theorem occurs_append {needle before : List Char}
    (h : ∀ tail ∈ before.tails, tail = [] ∨ ¬ (tail <+: needle ∨ needle <+: tail)) (cs : List Char) :
    occurs needle (before ++ cs) = occurs needle cs := by
  induction before with
  | nil => rfl
  | cons c rest ih =>
    rw [List.tails_cons, List.forall_mem_cons] at h
    obtain ⟨hfirst, hothers⟩ := h
    have hprefix : needle.isPrefixOf (c :: (rest ++ cs)) = false := by
      rw [Bool.eq_false_iff, ne_eq, List.isPrefixOf_iff_prefix]
      intro hpre
      refine (hfirst.resolve_left (List.cons_ne_nil c rest)) ?_
      exact List.prefix_or_prefix_of_prefix (List.prefix_append (c :: rest) cs) hpre
    rw [List.cons_append, occurs, hprefix, Bool.false_or]
    exact ih hothers

theorem typeImports_append {before : String} (h : ∀ tail ∈ before.toList.tails,
      tail = [] ∨ ¬ (tail <+: "time.Time".toList ∨ "time.Time".toList <+: tail)) (text : String) :
    typeImports (before ++ text) = typeImports text := by
  rw [typeImports, String.toList_append, occurs_append h]
  rfl

/-- A name without a dot is no time. -/
theorem typeImports_of_unmarked {name : String} (h : Unmarked name) : typeImports name = [] := by
  have hdot : '.' ∉ name.toList := fun hmem => h '.' hmem (by decide)
  rw [typeImports, occurs_of_not_mem (by decide) hdot]
  rfl

/-- Types made of others stand behind a text that ends in code. -/
theorem scans_typeAround {before text : String} (hbefore : Scans Fresh before Fresh [])
    (htails : ∀ tail ∈ before.toList.tails, tail = [] ∨ ¬ (tail <+: "time.Time".toList ∨ "time.Time".toList <+: tail))
    (h : Scans Fresh text InCode (typeImports text)) :
    Scans Fresh (before ++ text) InCode (typeImports (before ++ text)) := by
  rw [typeImports_append htails]
  exact hbefore.silentAppend h

theorem scans_typeWord {name : String} (h : Unmarked name) : Scans Fresh name InCode (typeImports name) := by
  rw [typeImports_of_unmarked h]
  exact (scans_unmarked h).fresh

theorem unmarked_scalarName (k : Scalar) : Unmarked (scalarName k) := by cases k <;> exact .of_chars (by decide)

theorem scans_typeName {t : TypeRef} (h : t.In Unmarked) :
    Scans Fresh (typeName t) InCode (typeImports (typeName t)) := by
  induction t with
  | scalar k => exact scans_typeWord (unmarked_scalarName k)
  | timestamp =>
    have htime : Scans Fresh "time.Time" (At (.code true ['T', 'i', 'm', 'e'])) ["time"] := .of_chars (by decide)
    have himports : typeImports "time.Time" = ["time"] := by decide
    rw [typeName, himports]
    exact htime.weaken (fun _ => id) fun _ hm => ⟨true, _, hm⟩
  | date => exact scans_typeWord (.of_chars (by decide))
  | time => exact scans_typeWord (.of_chars (by decide))
  | named name => exact scans_typeWord (TypeRef.in_named.mp h)
  | array item ih => exact scans_typeAround (.of_chars (by decide)) (by decide) (ih (TypeRef.in_array.mp h))
  | map value ih => exact scans_typeAround (.of_chars (by decide)) (by decide) (ih h)
  | any => exact scans_typeWord (.of_chars (by decide))

theorem scans_fieldTypeName {t : TypeRef} (h : t.In Unmarked) (optional : Bool) :
    Scans Fresh (fieldTypeName t optional) InCode (typeImports (fieldTypeName t optional)) := by
  unfold fieldTypeName
  split
  · exact scans_typeAround (.of_chars (by decide)) (by decide) (scans_typeName h)
  · exact scans_typeName h

/-! ## Tags and values -/

theorem silent_literal (s : String) : Silent (literal s) := (scans_literal s).fresh.inCode.silent

theorem literal_ne_empty (s : String) : literal s ≠ "" := by
  intro heq
  have hlength := congrArg (·.toList.length) heq
  simp [literal, literalChars] at hlength

/-- A raw tag has no backtick in it. -/
theorem silent_structTag (key : String) (optional : Bool) : Silent (structTag key optional) := by
  unfold structTag
  dsimp only
  generalize (if optional then key ++ ",omitempty" else key) = value
  split
  · exact silent_literal _
  · rename_i hplain
    have hvalue : '\x60' ∉ value.toList := by
      intro hmem
      exact hplain (List.any_eq_true.mpr ⟨'\x60', hmem, by decide⟩)
    have hopen : Scans Fresh "\x60json:\"" (At .raw) [] := .of_chars (by decide)
    have hclose : Scans (At .raw) "\"\x60" Fresh [] := .of_chars (by decide)
    exact ((hopen.append (scans_raw hvalue)).append hclose).inCode.silent

theorem silent_literalText (l : Literal) : Silent (literalText l) := by
  cases l with
  | text s => exact silent_literal s
  | integer n => exact (scans_number fun c => inNumber_toString).silent
  | float x => exact (scans_number fun c => Double.inNumber_toPlain).silent

/-! ## Query values -/

section

variable {value field key : String}

/-- A value stands where a dot behind it would name nothing. -/
def Value (value : String) : Prop := Scans Fresh value Nameless []

theorem Value.scans (h : Value value) : Scans Fresh value InCode [] :=
  Scans.weaken h (fun _ => id) fun _ => Nameless.inCode

theorem value_item : Value "v" := by
  have hword : Scans Fresh "v" (At (.code false ['v'])) [] := .of_chars (by decide)
  exact hword.weaken (fun _ => id) fun _ hm => ⟨false, ['v'], hm, .inr (by decide)⟩

theorem value_field (h : ∀ c ∈ field.toList, isWord c = true) : Value ("p." ++ field) := by
  have hparams : Scans Fresh "p." (At (.code true [])) [] := .of_chars (by decide)
  exact hparams.append (scans_member h)

theorem Value.pointee (h : Value value) : Value ("*" ++ value) := by
  have hstar : Scans Fresh "*" Fresh [] := .of_chars (by decide)
  exact hstar.append h

theorem Value.receiver (h : Value value) : Value (receiver value) := by
  have hopen : Scans Fresh "(" Fresh [] := .of_chars (by decide)
  have hclose : Scans InCode ")" Nameless [] :=
    (Scans.of_delimited (by decide)).weaken (fun _ => id) fun _ hm =>
      ⟨false, [], hm, .inr (by decide)⟩
  unfold Go.receiver
  split
  · exact (hopen.append h.scans).append hclose
  · exact h

/-- A call around a value names what its function does. -/
theorem Value.scans_call {before after : String} {used : List String} (h : Value value)
    (hbefore : Scans Fresh before Fresh used) (hafter : Scans InCode after Fresh []) :
    Scans Fresh (before ++ value ++ after) InCode used :=
  ((hbefore.appendSilent h.scans).appendSilent hafter).inCode

theorem Value.scans_cast (h : Value value) (via : CastTarget) (element : TypeRef) :
    Scans Fresh (formatValue (.cast via) element value) InCode (formatImports (.cast via) element) := by
  cases via with
  | timestamp =>
    have htime : Scans Fresh "time.Time(" Fresh ["time"] := .of_chars (by decide)
    have hformat : Scans InCode ").Format(time.RFC3339)" Fresh ["time"] :=
      .of_delimited (by decide)
    refine (((htime.appendSilent h.scans).append hformat).inCode).congr ?_
    intro path
    simp [formatImports]
  | date =>
    show Scans Fresh ("Date(" ++ value ++ ").String()") InCode []
    exact h.scans_call (.of_chars (by decide)) (.of_delimited (by decide))
  | time =>
    show Scans Fresh ("Time(" ++ value ++ ").String()") InCode []
    exact h.scans_call (.of_chars (by decide)) (.of_delimited (by decide))
  | scalar k =>
    cases k with
    | string =>
      show Scans Fresh ("string(" ++ value ++ ")") InCode []
      exact h.scans_call (.of_chars (by decide)) (.of_delimited (by decide))
    | integer =>
      show Scans Fresh ("strconv.Itoa(int(" ++ value ++ "))") InCode ["strconv"]
      exact h.scans_call (.of_chars (by decide)) (.of_delimited (by decide))
    | int64 =>
      show Scans Fresh ("strconv.FormatInt(int64(" ++ value ++ "), 10)") InCode ["strconv"]
      exact h.scans_call (.of_chars (by decide)) (.of_delimited (by decide))
    | float =>
      show Scans Fresh ("strconv.FormatFloat(float64(" ++ value ++ "), 'f', -1, 64)") InCode ["strconv"]
      exact h.scans_call (.of_chars (by decide)) (.of_delimited (by decide))
    | boolean =>
      show Scans Fresh ("strconv.FormatBool(bool(" ++ value ++ "))") InCode ["strconv"]
      exact h.scans_call (.of_chars (by decide)) (.of_delimited (by decide))

theorem scans_formatValue (format : ValueFormat) (element : TypeRef) (h : Value value) :
    Scans Fresh (formatValue format element value) InCode (formatImports format element) := by
  have hformat : Scans Nameless ".Format(time.RFC3339)" Fresh ["time"] := .of_dot (by decide)
  have hstring : Scans Nameless ".String()" Fresh [] := .of_dot (by decide)
  cases format with
  | text =>
    unfold formatValue formatImports
    dsimp only
    split
    · exact h.scans
    · exact h.scans_call (.of_chars (by decide)) (.of_delimited (by decide))
  | timestamp => exact (h.receiver.append hformat).inCode
  | date => exact (h.receiver.append hstring).inCode
  | time => exact (h.receiver.append hstring).inCode
  | integer =>
    unfold formatValue formatImports
    dsimp only
    split
    · exact h.scans_call (.of_chars (by decide)) (.of_delimited (by decide))
    · exact h.scans_call (.of_chars (by decide)) (.of_delimited (by decide))
  | boolean =>
    show Scans Fresh ("strconv.FormatBool(" ++ value ++ ")") InCode ["strconv"]
    exact h.scans_call (.of_chars (by decide)) (.of_delimited (by decide))
  | float =>
    show Scans Fresh ("strconv.FormatFloat(" ++ value ++ ", 'f', -1, 64)") InCode ["strconv"]
    exact h.scans_call (.of_chars (by decide)) (.of_delimited (by decide))
  | cast via => exact h.scans_cast via element

/-- A key and the text of its value, in a call. -/
theorem scans_pair {before text after : String} {used : List String} (key : String)
    (hbefore : Scans Fresh before Fresh []) (htext : Scans Fresh text InCode used)
    (hafter : Scans InCode after Fresh []) :
    Scans Fresh (before ++ literal key ++ ", " ++ text ++ after) InCode used := by
  have hkey : Scans Fresh (literal key) Fresh [] := (scans_literal key).fresh
  have hcomma : Scans Fresh ", " Fresh [] := .of_chars (by decide)
  exact ((((hbefore.append hkey).append hcomma).silentAppend htext).appendSilent hafter).inCode

/-- A statement names what the format of its value needs. -/
theorem scans_queryStatement (c : Conversion) (f : Field) (h : ∀ ch ∈ c.field.toList, isWord ch = true) :
    Scans Fresh (queryStatement c f) InCode (formatImports c.format c.element) := by
  have hfield := value_field h
  have hformat {value : String} (hvalue : Value value) := scans_formatValue c.format c.element hvalue
  unfold queryStatement
  dsimp only
  split
  · split
    · have hfor : Scans Fresh "for _, v := range " Fresh [] := .of_chars (by decide)
      have hadd : Scans InCode " \x7b\n\t\tq.Add(" Fresh [] := .of_delimited (by decide)
      exact scans_pair c.key ((hfor.append hfield.scans).append hadd) (hformat value_item) (.of_delimited (by decide))
    · have hif : Scans Fresh "if " Fresh [] := .of_chars (by decide)
      have hfor : Scans InCode " != nil \x7b\n\t\tfor _, v := range *" Fresh [] :=
        .of_delimited (by decide)
      have hadd : Scans InCode " \x7b\n\t\t\tq.Add(" Fresh [] := .of_delimited (by decide)
      exact scans_pair c.key ((((hif.append hfield.scans).append hfor).append hfield.scans).append hadd)
        (hformat value_item) (.of_delimited (by decide))
  · split
    · exact scans_pair c.key (.of_chars (by decide)) (hformat hfield) (.of_delimited (by decide))
    · have hif : Scans Fresh "if " Fresh [] := .of_chars (by decide)
      have hset : Scans InCode " != nil \x7b\n\t\tq.Set(" Fresh [] := .of_delimited (by decide)
      have htarget : Value (if isNilable f.type then "p." ++ c.field else "*" ++ ("p." ++ c.field)) := by
        split
        · exact hfield
        · exact hfield.pointee
      exact scans_pair c.key ((hif.append hfield.scans).append hset) (hformat htarget) (.of_delimited (by decide))

end

end Go

end ClientGen
