import ClientGen.Go.Query

/-
  ClientGen.Proofs.Query.Statement — the statements that query encoders are made of.

  The source of a statement says which statement it is: the first letters give the kind, and
  between them and the end, all but what is read is the same for one conversion
  (`Statement.text_injective`). So what a query encoder writes can be taken as a `Statement`
  (`queryStatement_eq_text`), which can be looked into, and run. Whatever its kind, it puts a value
  under the key of its conversion (`queryStatement_puts`).
-/

namespace ClientGen.Go

/-! ## Statements -/

/-- What is read: the field, what the field points to, or the element of a loop. -/
inductive Operand where
  | field
  | pointee
  | element
  deriving DecidableEq, Repr

inductive Statement where
  /-- Set the value of the key. -/
  | set (value : Operand)
  /-- Add a value for the key. -/
  | add (value : Operand)
  | range (values : Operand) (body : Statement)
  | ifNotNil (body : Statement)
  deriving DecidableEq, Repr

def Operand.text (field : String) : Operand → String
  | .field => "p." ++ field
  | .pointee => "*p." ++ field
  | .element => "v"

theorem Operand.text_injective {field : String} {a b : Operand} (h : a.text field = b.text field) : a = b := by
  have hchars := congrArg String.toList h
  cases a <;> cases b <;> simp [text] at hchars ⊢

theorem Operand.receiver_injective {field : String} {a b : Operand}
    (h : receiver (a.text field) = receiver (b.text field)) : a = b := by
  have hchars := congrArg String.toList h
  cases a <;> cases b <;> simp [text, receiver] at hchars ⊢

/-- A value stands between two texts that do not depend on it, with its own parentheses or without. -/
theorem formatValue_around (format : ValueFormat) (element : TypeRef) :
    (∃ before after, ∀ value, formatValue format element value = before ++ (value ++ after)) ∨
      ∃ after, ∀ value, formatValue format element value = receiver value ++ after := by
  have hcall (before after value : String) : before ++ value ++ after = before ++ (value ++ after) := by
    rw [String.append_assoc]
  cases format with
  | text =>
    by_cases helement : element = .scalar .string
    · refine .inl ⟨"", "", fun value => ?_⟩
      rw [String.append_empty, String.empty_append]
      exact if_pos helement
    · exact .inl ⟨"fmt.Sprint(", ")", fun value => (if_neg helement).trans (hcall _ _ value)⟩
  | integer =>
    by_cases helement : element = .scalar .int64
    · exact .inl ⟨"strconv.FormatInt(", ", 10)", fun value => (if_pos helement).trans (hcall _ _ value)⟩
    · exact .inl ⟨"strconv.Itoa(", ")", fun value => (if_neg helement).trans (hcall _ _ value)⟩
  | float => exact .inl ⟨"strconv.FormatFloat(", ", 'f', -1, 64)", fun value => hcall _ _ value⟩
  | boolean => exact .inl ⟨"strconv.FormatBool(", ")", fun value => hcall _ _ value⟩
  | timestamp => exact .inr ⟨".Format(time.RFC3339)", fun _ => rfl⟩
  | date => exact .inr ⟨".String()", fun _ => rfl⟩
  | time => exact .inr ⟨".String()", fun _ => rfl⟩
  | cast via =>
    cases via with
    | timestamp => exact .inl ⟨"time.Time(", ").Format(time.RFC3339)", fun value => hcall _ _ value⟩
    | date => exact .inl ⟨"Date(", ").String()", fun value => hcall _ _ value⟩
    | time => exact .inl ⟨"Time(", ").String()", fun value => hcall _ _ value⟩
    | scalar k =>
      cases k with
      | string => exact .inl ⟨"string(", ")", fun value => hcall _ _ value⟩
      | integer => exact .inl ⟨"strconv.Itoa(int(", "))", fun value => hcall _ _ value⟩
      | int64 => exact .inl ⟨"strconv.FormatInt(int64(", "), 10)", fun value => hcall _ _ value⟩
      | float => exact .inl ⟨"strconv.FormatFloat(float64(", "), 'f', -1, 64)", fun value => hcall _ _ value⟩
      | boolean => exact .inl ⟨"strconv.FormatBool(bool(", "))", fun value => hcall _ _ value⟩

theorem formatValue_injective {format : ValueFormat} {element : TypeRef} {field : String} {a b : Operand}
    (h : formatValue format element (a.text field) = formatValue format element (b.text field)) : a = b := by
  rcases formatValue_around format element with ⟨before, after, haround⟩ | ⟨after, haround⟩
  · rw [haround, haround, String.append_right_inj, String.append_left_inj] at h
    exact Operand.text_injective h
  · rw [haround, haround, String.append_left_inj] at h
    exact Operand.receiver_injective h

namespace Statement

/-- The source of a statement behind an indentation. -/
def text (c : Conversion) (indent : String) : Statement → String
  | .set value => "q.Set(" ++ (literal c.key ++ (", " ++ (formatValue c.format c.element (value.text c.field) ++ ")")))
  | .add value => "q.Add(" ++ (literal c.key ++ (", " ++ (formatValue c.format c.element (value.text c.field) ++ ")")))
  | .range values body =>
    "for _, v := range " ++ (values.text c.field ++ (" \x7b\n" ++ (indent ++ "\t" ++
      (body.text c (indent ++ "\t") ++ ("\n" ++ indent ++ "\x7d")))))
  | .ifNotNil body =>
    "if p." ++ (c.field ++ (" != nil \x7b\n" ++ (indent ++ "\t" ++
      (body.text c (indent ++ "\t") ++ ("\n" ++ indent ++ "\x7d")))))

/-- The first three letters of a statement tell which kind it is. -/
def letters : Statement → List Char
  | .set _ => ['q', '.', 'S']
  | .add _ => ['q', '.', 'A']
  | .range _ _ => ['f', 'o', 'r']
  | .ifNotNil _ => ['i', 'f', ' ']

theorem take_append {start rest : String} {cs : List Char} (h : start.toList.take 3 = cs)
    (hlength : 3 ≤ start.toList.length) : (start ++ rest).toList.take 3 = cs := by
  rw [String.toList_append, List.take_append_of_le_length hlength, h]

theorem take_text (c : Conversion) (indent : String) (s : Statement) :
    (s.text c indent).toList.take 3 = s.letters := by
  cases s with
  | set value => exact @take_append "q.Set(" _ _ rfl (by decide)
  | add value => exact @take_append "q.Add(" _ _ rfl (by decide)
  | range values body => exact @take_append "for _, v := range " _ _ rfl (by decide)
  | ifNotNil body => exact @take_append "if p." _ _ rfl (by decide)

theorem letters_eq {c : Conversion} {indent : String} {s s' : Statement} (h : s.text c indent = s'.text c indent) :
    s.letters = s'.letters := by
  rw [← take_text c indent s, h, take_text]

/-- What stands between the key and the end of a call. -/
theorem call_injective {before key a b : String}
    (h : before ++ (key ++ (", " ++ (a ++ ")"))) = before ++ (key ++ (", " ++ (b ++ ")")))) : a = b := by
  rwa [String.append_right_inj, String.append_right_inj, String.append_right_inj, String.append_left_inj] at h

theorem block_injective {before values middle indent a b after : String}
    (h : before ++ (values ++ (middle ++ (indent ++ (a ++ after)))) =
      before ++ (values ++ (middle ++ (indent ++ (b ++ after))))) : a = b := by
  rwa [String.append_right_inj, String.append_right_inj, String.append_right_inj, String.append_right_inj,
    String.append_left_inj] at h

theorem range_injective {before rest rest' field : String} {values values' : Operand}
    (h : before ++ (values.text field ++ rest) = before ++ (values'.text field ++ rest')) : values = values' := by
  have hchars := congrArg (·.toList.head?) ((String.append_right_inj before).mp h)
  cases values <;> cases values' <;> simp [Operand.text] at hchars ⊢

theorem text_injective {c : Conversion} {indent : String} {s s' : Statement} (h : s.text c indent = s'.text c indent) :
    s = s' := by
  have hletters := letters_eq h
  induction s generalizing s' indent with
  | set value =>
    cases s' with
    | set value' => rw [formatValue_injective (call_injective h)]
    | _ => cases hletters
  | add value =>
    cases s' with
    | add value' => rw [formatValue_injective (call_injective h)]
    | _ => cases hletters
  | range values body ih =>
    cases s' with
    | range values' body' =>
      obtain rfl := range_injective h
      have hbody := block_injective h
      rw [ih hbody (letters_eq hbody)]
    | _ => cases hletters
  | ifNotNil body ih =>
    cases s' with
    | ifNotNil body' =>
      have hbody := block_injective h
      rw [ih hbody (letters_eq hbody)]
    | _ => cases hletters

/-- All that a statement reads. -/
def operands : Statement → List Operand
  | .set value => [value]
  | .add value => [value]
  | .range values body => values :: body.operands
  | .ifNotNil body => body.operands

/-- What a statement reads without testing the field before. -/
def untested : Statement → List Operand
  | .set value => [value]
  | .add value => [value]
  | .range values body => values :: body.untested
  | .ifNotNil _ => []

/-- What is done once all tests have passed. -/
def action : Statement → Statement
  | .ifNotNil body => body.action
  | s => s

/-- A pair for each element of a repeated value, one for any other. -/
def convert (c : Conversion) (value : Operand) : Statement :=
  if c.repeated then .range value (.add .element) else .set value

/-- The statement for a conversion and its field. A loop over nil does nothing and needs no test. -/
def ofConversion (c : Conversion) (f : Field) : Statement :=
  if c.required then convert c .field
  else if isNilable f.type then
    if c.repeated then convert c .field else .ifNotNil (convert c .field)
  else .ifNotNil (convert c .pointee)

/-! ## The source that encoders have -/

section Source

variable (values field key value : String)

theorem range_source :
    "for _, v := range " ++ values ++ " \x7b\n\t\tq.Add(" ++ key ++ ", " ++ value ++ ")\n\t\x7d" =
      "for _, v := range " ++ (values ++ (" \x7b\n" ++ ("\t" ++ "\t" ++
        ("q.Add(" ++ (key ++ (", " ++ (value ++ ")"))) ++ ("\n" ++ "\t" ++ "\x7d"))))) := by
  have hopen : " \x7b\n\t\tq.Add(" = " \x7b\n" ++ ("\t" ++ ("\t" ++ "q.Add(")) := rfl
  have hclose : ")\n\t\x7d" = ")" ++ ("\n" ++ ("\t" ++ "\x7d")) := rfl
  simp only [hopen, hclose, String.append_assoc]

theorem tested_range_source :
    "if " ++ ("p." ++ field) ++ " != nil \x7b\n\t\tfor _, v := range *" ++ ("p." ++ field) ++ " \x7b\n\t\t\tq.Add(" ++ key ++
        ", " ++ value ++ ")\n\t\t\x7d\n\t\x7d" =
      "if p." ++ (field ++ (" != nil \x7b\n" ++ ("\t" ++ "\t" ++
        ("for _, v := range " ++ ("*p." ++ field ++ (" \x7b\n" ++ ("\t" ++ "\t" ++ "\t" ++
          ("q.Add(" ++ (key ++ (", " ++ (value ++ ")"))) ++ ("\n" ++ ("\t" ++ "\t") ++ "\x7d"))))) ++
          ("\n" ++ "\t" ++ "\x7d"))))) := by
  have hif : "if p." = "if " ++ "p." := rfl
  have hfor : " != nil \x7b\n\t\tfor _, v := range *" =
    " != nil \x7b\n" ++ ("\t" ++ ("\t" ++ ("for _, v := range " ++ "*"))) := rfl
  have hfield : "*p." = "*" ++ "p." := rfl
  have hopen : " \x7b\n\t\t\tq.Add(" = " \x7b\n" ++ ("\t" ++ ("\t" ++ ("\t" ++ "q.Add("))) := rfl
  have hclose : ")\n\t\t\x7d\n\t\x7d" =
    ")" ++ ("\n" ++ ("\t" ++ ("\t" ++ ("\x7d" ++ ("\n" ++ ("\t" ++ "\x7d")))))) := rfl
  simp only [hif, hfor, hfield, hopen, hclose, String.append_assoc]

theorem tested_set_source :
    "if " ++ ("p." ++ field) ++ " != nil \x7b\n\t\tq.Set(" ++ key ++ ", " ++ value ++ ")\n\t\x7d" =
      "if p." ++ (field ++ (" != nil \x7b\n" ++ ("\t" ++ "\t" ++
        ("q.Set(" ++ (key ++ (", " ++ (value ++ ")"))) ++ ("\n" ++ "\t" ++ "\x7d"))))) := by
  have hif : "if p." = "if " ++ "p." := rfl
  have hopen : " != nil \x7b\n\t\tq.Set(" = " != nil \x7b\n" ++ ("\t" ++ ("\t" ++ "q.Set(")) := rfl
  have hclose : ")\n\t\x7d" = ")" ++ ("\n" ++ ("\t" ++ "\x7d")) := rfl
  simp only [hif, hopen, hclose, String.append_assoc]

end Source

theorem queryStatement_eq_text (c : Conversion) (f : Field) :
    queryStatement c f = (ofConversion c f).text c "\t" := by
  unfold queryStatement ofConversion convert
  by_cases hrepeated : c.repeated = true
  · by_cases hrequired : c.required = true
    · simp only [if_pos hrepeated, hrequired, Bool.true_or, if_true]
      exact range_source _ _ _
    · by_cases hnilable : isNilable f.type = true
      · simp only [if_pos hrepeated, if_neg hrequired, hnilable, Bool.or_true, if_true]
        exact range_source _ _ _
      · have htested : ¬(c.required || isNilable f.type) = true := by simp [hrequired, hnilable]
        simp only [if_pos hrepeated, if_neg hrequired, if_neg hnilable, if_neg htested]
        exact tested_range_source _ _ _
  · by_cases hrequired : c.required = true
    · simp only [if_neg hrepeated, if_pos hrequired, String.append_assoc]
      rfl
    · by_cases hnilable : isNilable f.type = true
      · simp only [if_neg hrepeated, if_neg hrequired, if_pos hnilable]
        exact tested_set_source _ _ _
      · simp only [if_neg hrepeated, if_neg hrequired, if_neg hnilable]
        exact tested_set_source _ _ _

end Statement

/-! ## Keys -/

/-- Somewhere in the source a value is put under the key. -/
def Puts (key source : String) : Prop :=
  ∃ before call value after, call ∈ ["q.Set(", "q.Add("] ∧
    source = before ++ call ++ literal key ++ ", " ++ value ++ ")" ++ after

theorem Puts.block {key source : String} (h : Puts key source) (before values middle indent after : String) :
    Puts key (before ++ (values ++ (middle ++ (indent ++ (source ++ after))))) := by
  obtain ⟨front, call, value, back, hcall, rfl⟩ := h
  exact ⟨before ++ values ++ middle ++ indent ++ front, call, value, back ++ after, hcall,
    by simp only [String.append_assoc]⟩

theorem puts_call {key call : String} (value : String) (hcall : call ∈ ["q.Set(", "q.Add("]) :
    Puts key (call ++ (literal key ++ (", " ++ (value ++ ")")))) :=
  ⟨"", call, value, "", hcall, by simp only [String.append_assoc, String.empty_append, String.append_empty]⟩

theorem Statement.puts_text (c : Conversion) (indent : String) (s : Statement) : Puts c.key (s.text c indent) := by
  induction s generalizing indent with
  | set value => exact puts_call _ List.mem_cons_self
  | add value => exact puts_call _ (List.mem_cons_of_mem _ List.mem_cons_self)
  | range values body ih => exact (ih (indent ++ "\t")).block _ _ _ _ _
  | ifNotNil body ih => exact (ih (indent ++ "\t")).block _ _ _ _ _

/-- The statement of a conversion puts its value under the key of the conversion. -/
theorem queryStatement_puts (c : Conversion) (f : Field) : Puts c.key (queryStatement c f) := by
  rw [Statement.queryStatement_eq_text]
  exact Statement.puts_text c "\t" _

end ClientGen.Go
