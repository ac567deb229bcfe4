import ClientGen.Document.Encode
import ClientGen.Proofs.Document.Order

/-
  ClientGen.Proofs.Document.RoundTrip — a document that is written as JSON reads back as itself.

  The two sides are compared combinator by combinator: what writes an option is read back by what
  reads an optional key, and so for lists, maps and references. Then type by type; for schemas the
  induction is on the schema, since a value knows what it is when a schema, a list of schemas or a
  map of schemas is due. Two types hold lists that could not be read back whatever is in them, and
  hold what can be read back once they were decoded (`Document.decode_canonical`):
  - The extensions of an operation are in the order of their keys, and none is a key of its own.
  - The operations of a path are in the order of their methods.
  Both ask for a value in order, and the values of texts are (`Document.decode_encode_of_text`).
-/

namespace ClientGen

/-! ## Lists, maps, options and references -/

theorem mapM_map_some {α β : Type} {read : β → Option α} {write : α → β} {as : List α}
    (h : ∀ a ∈ as, read (write a) = some a) : (as.map write).mapM read = some as := by
  induction as with
  | nil => rfl
  | cons a rest ih =>
    obtain ⟨ha, hrest⟩ := List.forall_mem_cons.mp h
    rw [List.map_cons, List.mapM_cons, ha, ih hrest]
    rfl

namespace Json

variable {α : Type} {decode : Json → Option α} {encode : α → Json} {fields : KeyMap Json} {key : String}

theorem listOf_encode {as : List α} (h : ∀ a ∈ as, decode (encode a) = some a) :
    listOf? decode (.arr (as.map encode)) = some as :=
  mapM_map_some h

@[simp] theorem strings_ofTexts (ss : List String) : (ofTexts ss).strings? = some ss :=
  mapM_map_some fun _ _ => rfl

theorem mapOf_encode {m : KeyMap α} (h : ∀ e ∈ m, decode (encode e.2) = some e.2) :
    mapOf? decode (ofMap encode m) = some m := by
  refine mapM_map_some fun e he => ?_
  simp only [h e he, Option.map_some]

/-- An option is written as `null` when it is absent, so what is written otherwise is not `null`. -/
theorem optional_encode {o : Option α} (hget : KeyMap.get? fields key = some (ofOption encode o))
    (h : ∀ a, o = some a → decode (encode a) = some a ∧ encode a ≠ .null) : optional? decode fields key = some o := by
  unfold optional?
  rw [hget]
  cases o with
  | none => rfl
  | some a =>
    obtain ⟨hdecode, hnull⟩ := h a rfl
    simp only [ofOption, hdecode, Option.map_some]

theorem optional_text {s : Option String} (hget : KeyMap.get? fields key = some (ofText s)) :
    optional? str? fields key = some s :=
  optional_encode hget fun _ _ => ⟨rfl, Json.noConfusion⟩

theorem defaulted_encode {default a : α} {v : Json} (hget : KeyMap.get? fields key = some v) (h : decode v = some a) :
    defaulted? decode default fields key = some a := by
  rw [defaulted?, hget]
  exact h

theorem required_encode {a : α} {v : Json} (hget : KeyMap.get? fields key = some v) (h : decode v = some a) :
    required? decode fields key = some a := by
  rw [required?, hget]
  exact h

end Json

/-- An item is not written as a reference. -/
theorem RefOr.decode_encode {α : Type} {decode : Json → Option α} {encode : α → Json} (r : RefOr α)
    (h : ∀ a, decode (encode a) = some a ∧ (encode a).get? "$ref" = none) :
    RefOr.decode? decode (r.encode encode) = some r := by
  cases r with
  | ref target => rfl
  | item a =>
    obtain ⟨hdecode, href⟩ := h a
    simp only [RefOr.encode, RefOr.decode?, href, hdecode, Option.bind_none, Option.map_some]

/-! ## Schemas -/

theorem TypeKeyword.decode_encode (t : TypeKeyword) : TypeKeyword.decode? t.encode = some t := by
  cases t with
  | single t => rfl
  | several ts => exact congrArg (Option.map TypeKeyword.several) (Json.strings_ofTexts ts)

namespace Schema

theorem encode_eq_obj (s : Schema) : ∃ fields, s.encode = .obj fields := by
  cases s
  rw [encode]
  exact ⟨_, rfl⟩

@[simp] theorem withText_ofText (set : Option String → Schema) (x : Option String) :
    withText set (Json.ofText x) = some (set x) := by
  cases x <;> rfl

@[simp] theorem withFlag_ofFlag (set : Option Bool → Schema) (x : Option Bool) :
    withFlag set (Json.ofFlag x) = some (set x) := by
  cases x <;> rfl

@[simp] theorem read_value (v : Json) : (read v).value = v := by
  cases v <;> simp [read]

/-- A written schema is no `null`. -/
theorem orNull_encode {α : Type} (s : Schema) (part : Option α) : (read s.encode).orNull part = part.map some := by
  obtain ⟨fields, h⟩ := encode_eq_obj s
  rw [h, read]
  rfl

/-- A written schema is no flag. -/
theorem additional_encode (s : Schema) :
    (read s.encode).additional = (read s.encode).schema.map fun s => some (.schema s) := by
  obtain ⟨fields, h⟩ := encode_eq_obj s
  rw [h, read]
  exact Option.map_map ..

/-- The keywords take one schema to the other. -/
def Takes (fields : List (String × Reading)) (s t : Schema) : Prop :=
  fields.foldlM (fun s (key, r) => setKeyword? s key r) s = some t

namespace Takes

variable {rest : List (String × Reading)} {s t : Schema} {key : String} {r : Reading}

theorem cons {next : Schema} (h : setKeyword? s key r = some next) (hrest : Takes rest next t) :
    Takes ((key, r) :: rest) s t := by
  rw [Takes, List.foldlM_cons, show (match (key, r) with | (key, r) => setKeyword? s key r) = some next from h]
  exact hrest

theorem text (set : Schema → Option String → Schema) {x : Option String}
    (h : ∀ s r, setKeyword? s key r = withText (set s) r.value) (hrest : Takes rest (set s x) t) :
    Takes ((key, read (Json.ofText x)) :: rest) s t :=
  cons (by rw [h, read_value, withText_ofText]) hrest

theorem flag (set : Schema → Option Bool → Schema) {x : Option Bool}
    (h : ∀ s r, setKeyword? s key r = withFlag (set s) r.value) (hrest : Takes rest (set s x) t) :
    Takes ((key, read (Json.ofFlag x)) :: rest) s t :=
  cons (by rw [h, read_value, withFlag_ofFlag]) hrest

theorem part {α : Type} (set : Schema → α → Schema) {part : Reading → Option α} {x : α} (hx : part r = some x)
    (h : ∀ s r, setKeyword? s key r = (part r).map (set s)) (hrest : Takes rest (set s x) t) :
    Takes ((key, r) :: rest) s t :=
  cons (by rw [h, hx, Option.map_some]) hrest

end Takes

theorem setKeyword_enum (s : Schema) (x : Option (List Json)) :
    setKeyword? s "enum" (read (Json.ofOption .arr x)) = some { s with enumValues := x } := by
  have h (r : Reading) : setKeyword? s "enum" r = setPlain? s "enum" r.value := rfl
  rw [h, read_value]
  cases x <;> rfl

theorem setKeyword_type (s : Schema) (x : Option TypeKeyword) :
    setKeyword? s "type" (read (Json.ofOption TypeKeyword.encode x)) = some { s with type := x } := by
  have h (r : Reading) : setKeyword? s "type" r = setPlain? s "type" r.value := rfl
  rw [h, read_value]
  rcases x with _ | _ | ts
  · rfl
  · rfl
  · exact congrArg (Option.map fun t => { s with type := some t }) (TypeKeyword.decode_encode (.several ts))

mutual

/-- A schema that is written reads back as itself. -/
theorem decode_encode : (s : Schema) → decode? s.encode = some s
  | ⟨reference, type, format, title, description, items, properties, required, enumValues, additional, allOf, oneOf,
      anyOf, nullable, deprecated⟩ => by
    have hitems := orNull_encodeOption items
    have hproperties := orNull_encodeProperties properties
    have hadditional := additional_encodeAdditional additional
    have hallOf := orNull_encodeBranches allOf
    have honeOf := orNull_encodeBranches oneOf
    have hanyOf := orNull_encodeBranches anyOf
    have hrequired : (read (Json.ofTexts required)).value.strings? = some required := by
      rw [read_value, Json.strings_ofTexts]
    rw [decode?, encode, read]
    simp only [readFields]
    -- the keywords in the order in which they are written
    show Takes _ blank _
    exact .text (fun s x => { s with reference := x }) (fun _ _ => rfl) <|
      .part (fun s x => { s with additional := x }) hadditional (fun _ _ => rfl) <|
      .part (fun s x => { s with allOf := x }) hallOf (fun _ _ => rfl) <|
      .part (fun s x => { s with anyOf := x }) hanyOf (fun _ _ => rfl) <|
      .flag (fun s x => { s with deprecated := x }) (fun _ _ => rfl) <|
      .text (fun s x => { s with description := x }) (fun _ _ => rfl) <|
      .cons (setKeyword_enum _ enumValues) <|
      .text (fun s x => { s with format := x }) (fun _ _ => rfl) <|
      .part (fun s x => { s with items := x }) hitems (fun _ _ => rfl) <|
      .flag (fun s x => { s with nullable := x }) (fun _ _ => rfl) <|
      .part (fun s x => { s with oneOf := x }) honeOf (fun _ _ => rfl) <|
      .part (fun s x => { s with properties := x }) hproperties (fun _ _ => rfl) <|
      .part (fun s x => { s with required := x }) hrequired (fun _ _ => rfl) <|
      .text (fun s x => { s with title := x }) (fun _ _ => rfl) <|
      .cons (setKeyword_type _ type) rfl

theorem orNull_encodeOption : (o : Option Schema) →
    (read (encodeOption o)).orNull (read (encodeOption o)).schema = some o
  | none => rfl
  | some s => by
    have hs : (read s.encode).schema = some s := decode_encode s
    rw [encodeOption, orNull_encode, hs, Option.map_some]

theorem additional_encodeAdditional : (a : Option (Additional Schema)) →
    (read (encodeAdditional a)).additional = some a
  | none => rfl
  | some (.allowed yes) => rfl
  | some (.schema s) => by
    have hs : (read s.encode).schema = some s := decode_encode s
    rw [encodeAdditional, additional_encode, hs, Option.map_some]

theorem orNull_encodeBranches : (branches : Option (List Schema)) →
    (read (encodeBranches branches)).orNull (read (encodeBranches branches)).branches = some branches
  | none => rfl
  | some ss => by
    rw [encodeBranches, read]
    exact congrArg (Option.map some) (mapM_encodeList ss)

theorem mapM_encodeList : (ss : List Schema) → (readItems (encodeList ss)).mapM (·.schema) = some ss
  | [] => rfl
  | s :: rest => by
    have hs : (read s.encode).schema = some s := decode_encode s
    rw [encodeList, readItems, List.mapM_cons, hs, mapM_encodeList rest]
    rfl

theorem orNull_encodeProperties : (properties : Option (List (String × Schema))) →
    (read (encodeProperties properties)).orNull (read (encodeProperties properties)).properties = some properties
  | none => rfl
  | some fields => by
    rw [encodeProperties, read]
    exact congrArg (Option.map some) (mapM_encodeFields fields)

theorem mapM_encodeFields : (fields : List (String × Schema)) →
    (readFields (encodeFields fields)).mapM (fun (key, r) => r.schema.map (key, ·)) = some fields
  | [] => rfl
  | (key, s) :: rest => by
    have hs : (read s.encode).schema = some s := decode_encode s
    rw [encodeFields, readFields, List.mapM_cons]
    simp only [hs, Option.map_some, mapM_encodeFields rest]
    rfl

end

end Schema

/-! ## The document -/

open Json

theorem optional_schema {fields : KeyMap Json} {key : String} {s : Option Schema}
    (hget : KeyMap.get? fields key = some (ofOption Schema.encode s)) :
    optional? Schema.decode? fields key = some s := by
  refine optional_encode hget fun s _ => ⟨s.decode_encode, ?_⟩
  obtain ⟨fields, h⟩ := s.encode_eq_obj
  rw [h]
  exact Json.noConfusion

theorem Server.decode_encode (s : Server) : Server.decode? s.encode = some s := by
  simp only [decode?, Option.bind_eq_bind, Option.bind_eq_some_iff]
  exact ⟨_, rfl, _, required_encode rfl rfl, _, optional_text rfl, rfl⟩

theorem Tag.decode_encode (t : Tag) : Tag.decode? t.encode = some t := by
  simp only [decode?, Option.bind_eq_bind, Option.bind_eq_some_iff]
  exact ⟨_, rfl, _, required_encode rfl rfl, _, optional_text rfl, rfl⟩

theorem Info.decode_encode (i : Info) : Info.decode? i.encode = some i := by
  simp only [decode?, Option.bind_eq_bind, Option.bind_eq_some_iff]
  exact ⟨_, rfl, _, required_encode rfl rfl, _, required_encode rfl rfl, _, optional_text rfl, rfl⟩

theorem ParameterLocation.choice_name (l : ParameterLocation) : choice? ofName? (.str l.name) = some l := by
  cases l <;> rfl

theorem ParameterSpec.decode_encode (p : ParameterSpec) : ParameterSpec.decode? p.encode = some p := by
  simp only [decode?, Option.bind_eq_bind, Option.bind_eq_some_iff]
  exact ⟨_, rfl, _, required_encode rfl rfl, _, required_encode rfl p.location.choice_name,
    _, defaulted_encode rfl rfl, _, optional_text rfl, _, optional_schema rfl, rfl⟩

theorem MediaType.decode_encode (m : MediaType) : MediaType.decode? m.encode = some m := by
  simp only [decode?, Option.bind_eq_bind, Option.bind_eq_some_iff]
  exact ⟨_, rfl, _, optional_schema rfl, rfl⟩

theorem MediaType.mapOf_encode (m : KeyMap MediaType) : mapOf? MediaType.decode? (ofMap MediaType.encode m) = some m :=
  Json.mapOf_encode fun e _ => e.2.decode_encode

theorem RequestBody.decode_encode (b : RequestBody) : RequestBody.decode? b.encode = some b := by
  simp only [decode?, Option.bind_eq_bind, Option.bind_eq_some_iff]
  exact ⟨_, rfl, _, optional_text rfl, _, defaulted_encode rfl (MediaType.mapOf_encode _),
    _, defaulted_encode rfl rfl, rfl⟩

theorem ResponseSpec.decode_encode (r : ResponseSpec) : ResponseSpec.decode? r.encode = some r := by
  simp only [decode?, Option.bind_eq_bind, Option.bind_eq_some_iff]
  exact ⟨_, rfl, _, optional_text rfl, _, defaulted_encode rfl (MediaType.mapOf_encode _), rfl⟩

theorem parametersOf_encode (ps : List (RefOr ParameterSpec)) :
    parametersOf? (.arr (ps.map (RefOr.encode ParameterSpec.encode))) = some ps :=
  listOf_encode fun p _ => p.decode_encode fun a => ⟨a.decode_encode, rfl⟩

/-! ## Operations -/

namespace Operation

/-- What decoding makes sure of: extensions are in the order of their keys, and no key of an
    operation's own is one. -/
structure Canonical (op : Operation) : Prop where
  sorted : KeyMap.Sorted op.extensions
  others : ∀ key ∈ KeyMap.keys op.extensions, key ∉ keys

theorem decode_canonical {v : Json} {op : Operation} (hv : v.Sorted) (h : decode? v = some op) : op.Canonical := by
  simp only [decode?, Option.bind_eq_bind, Option.bind_eq_some_iff, Option.pure_def, Option.some.injEq] at h
  obtain ⟨fields, hfields, _, -, _, -, _, -, _, -, _, -, _, -, _, -, _, -, rfl⟩ := h
  constructor
  case sorted =>
    cases hv with
    | obj hkeys _ =>
      cases hfields
      exact hkeys.filter _
    | _ => cases hfields
  case others =>
    intro key hkey
    obtain ⟨e, he, rfl⟩ := List.mem_map.mp hkey
    have hother : !keys.contains e.1 := (List.mem_filter.mp he).2
    rw [Bool.not_eq_true', List.contains_eq_mem, decide_eq_false_iff_not] at hother
    exact hother

/-- The keys of an operation's own, as they are written. -/
def ownFields (op : Operation) : KeyMap Json :=
  [("deprecated", .bool op.deprecated),
    ("description", ofText op.description),
    ("operationId", ofText op.operationId),
    ("parameters", .arr (op.parameters.map (RefOr.encode ParameterSpec.encode))),
    ("requestBody", ofOption (RefOr.encode RequestBody.encode) op.requestBody),
    ("responses", ofMap (RefOr.encode ResponseSpec.encode) op.responses),
    ("summary", ofText op.summary),
    ("tags", ofTexts op.tags)]

theorem encode_eq (op : Operation) : op.encode = .obj (KeyMap.ofList (op.ownFields ++ op.extensions)) := rfl

theorem Canonical.nodup_keys {op : Operation} (h : op.Canonical) :
    (KeyMap.keys (op.ownFields ++ op.extensions)).Nodup := by
  rw [KeyMap.keys, List.map_append]
  refine List.nodup_append.mpr ⟨?_, h.sorted.nodup_keys, ?_⟩
  · show keys.Nodup
    decide
  · rintro key hown _ hext rfl
    exact h.others key hext hown

/-- Extensions are what is left of the written keys. -/
theorem Canonical.filter_encode {op : Operation} (h : op.Canonical) :
    (KeyMap.ofList (op.ownFields ++ op.extensions)).filter (fun e => !keys.contains e.1) = op.extensions := by
  refine KeyMap.Sorted.ext ((KeyMap.sorted_ofList _).filter _) h.sorted fun e => ?_
  rw [List.mem_filter, KeyMap.mem_ofList h.nodup_keys, List.mem_append, Bool.not_eq_true', List.contains_eq_mem,
    decide_eq_false_iff_not]
  constructor
  · rintro ⟨hown | hext, hkey⟩
    · exact absurd (List.mem_map_of_mem hown) hkey
    · exact hext
  · intro he
    exact ⟨.inr he, h.others e.1 (List.mem_map_of_mem he)⟩

theorem decode_encode {op : Operation} (h : op.Canonical) : decode? op.encode = some op := by
  -- a key that is written is found, wherever sorting puts it
  have hget {key : String} {v : Json} (hv : KeyMap.get? (op.ownFields ++ op.extensions) key = some v) :
      KeyMap.get? (KeyMap.ofList (op.ownFields ++ op.extensions)) key = some v :=
    (KeyMap.get?_ofList h.nodup_keys).mpr (KeyMap.mem_of_get? hv)
  have hbody (b : RefOr RequestBody) (_ : op.requestBody = some b) :
      RefOr.decode? RequestBody.decode? (b.encode RequestBody.encode) = some b ∧
        b.encode RequestBody.encode ≠ .null := by
    refine ⟨b.decode_encode fun a => ⟨a.decode_encode, rfl⟩, ?_⟩
    cases b <;> exact Json.noConfusion
  have hresponses : mapOf? (RefOr.decode? ResponseSpec.decode?)
      (ofMap (RefOr.encode ResponseSpec.encode) op.responses) = some op.responses :=
    mapOf_encode fun e _ => e.2.decode_encode fun a => ⟨a.decode_encode, rfl⟩
  simp only [decode?, encode_eq, fields?, Option.bind_eq_bind, Option.bind_some, Option.bind_eq_some_iff,
    h.filter_encode]
  exact ⟨_, defaulted_encode (hget rfl) (strings_ofTexts _),
    _, optional_text (hget rfl), _, optional_text (hget rfl), _, optional_text (hget rfl),
    _, defaulted_encode (hget rfl) (parametersOf_encode _),
    _, optional_encode (hget rfl) hbody,
    _, defaulted_encode (hget rfl) hresponses,
    _, defaulted_encode (hget rfl) rfl, rfl⟩

end Operation

/-- Operations that are in the order of the methods are found under their methods. -/
theorem operationsOf_encode {fields : KeyMap Json} {methods : List HttpMethod}
    {operations : List (HttpMethod × Operation)} (hmethods : (operations.map (·.1)).Sublist methods)
    (hnodup : methods.Nodup) (hoperations : ∀ o ∈ operations, o.2.Canonical)
    (hget : ∀ m ∈ methods,
      KeyMap.get? fields m.lowerName = some (ofOption Operation.encode (operations.lookup m))) :
    operationsOf? fields methods = some operations := by
  induction methods generalizing operations with
  | nil =>
    rw [List.map_eq_nil_iff.mp (List.sublist_nil.mp hmethods)]
    rfl
  | cons method rest ih =>
    obtain ⟨hfresh, hdistinct⟩ := List.nodup_cons.mp hnodup
    obtain ⟨hfirst, hrest⟩ := List.forall_mem_cons.mp hget
    simp only [operationsOf?, Option.bind_eq_bind, Option.bind_eq_some_iff]
    rcases List.sublist_cons_iff.mp hmethods with hskip | ⟨taken, heq, htaken⟩
    · -- no operation has this method
      have hnone : operations.lookup method = none := by
        refine List.lookup_eq_none_iff.mpr fun o ho => ?_
        have ho : o.1 ∈ rest := hskip.subset (List.mem_map_of_mem ho)
        exact bne_iff_ne.mpr (ne_of_mem_of_not_mem ho hfresh).symm
      rw [hnone] at hfirst
      refine ⟨none, ?_, operations, ih hskip hdistinct hoperations hrest, rfl⟩
      exact optional_encode hfirst fun _ hsome => by cases hsome
    · obtain ⟨⟨_, op⟩, more, rfl, rfl, rfl⟩ := List.map_eq_cons_iff.mp heq
      obtain ⟨hop, hmore⟩ := List.forall_mem_cons.mp hoperations
      rw [List.lookup_cons_self] at hfirst
      have hlater : ∀ m ∈ rest,
          KeyMap.get? fields m.lowerName = some (ofOption Operation.encode (more.lookup m)) := by
        intro m hm
        rw [hrest m hm, List.lookup_cons, beq_false_of_ne (ne_of_mem_of_not_mem hm hfresh)]
      refine ⟨some op, ?_, more, ih htaken hdistinct hmore hlater, rfl⟩
      exact optional_encode hfirst fun a ha => by
        cases ha
        exact ⟨Operation.decode_encode hop, Json.noConfusion⟩

/-- What decoding makes sure of. -/
structure PathItem.Canonical (item : PathItem) : Prop where
  methods : (item.operations.map (·.1)).Sublist HttpMethod.all
  operations : ∀ o ∈ item.operations, o.2.Canonical

theorem PathItem.decode_canonical {v : Json} {item : PathItem} (hv : v.Sorted) (h : decode? v = some item) :
    item.Canonical := by
  obtain ⟨hmethods, hread⟩ := PathItem.operations_decoded hv h
  refine ⟨hmethods, fun o ho => ?_⟩
  obtain ⟨w, hw, hdecode⟩ := hread o ho
  exact Operation.decode_canonical hw hdecode

theorem PathItem.decode_encode {item : PathItem} (h : item.Canonical) : decode? item.encode = some item := by
  simp only [decode?, Option.bind_eq_bind, Option.bind_eq_some_iff]
  refine ⟨_, rfl, _, optional_text rfl, _, optional_text rfl, _, optional_text rfl,
    _, operationsOf_encode h.methods (by decide) h.operations ?_, _, defaulted_encode rfl (parametersOf_encode _), rfl⟩
  intro m _
  cases m <;> rfl

/-! ## Documents -/

theorem Components.decode_encode (c : Components) : Components.decode? c.encode = some c := by
  simp only [decode?, Option.bind_eq_bind, Option.bind_eq_some_iff]
  exact ⟨_, rfl, _, defaulted_encode rfl (mapOf_encode fun e _ => e.2.decode_encode),
    _, defaulted_encode rfl (mapOf_encode fun e _ => e.2.decode_encode),
    _, defaulted_encode rfl (mapOf_encode fun e _ => e.2.decode_encode),
    _, defaulted_encode rfl (mapOf_encode fun e _ => e.2.decode_encode), rfl⟩

namespace Document

/-- What decoding makes sure of. -/
def Canonical (doc : Document) : Prop := ∀ e ∈ doc.paths, e.2.Canonical

theorem decode_canonical {v : Json} {doc : Document} (hv : v.Sorted) (h : decode? v = some doc) : doc.Canonical := by
  intro e he
  obtain ⟨w, hw, hdecode⟩ := (paths_decoded hv h).2 e he
  exact PathItem.decode_canonical hw hdecode

theorem Canonical.decode_encode {doc : Document} (h : doc.Canonical) : decode? doc.encode = some doc := by
  simp only [decode?, Option.bind_eq_bind, Option.bind_eq_some_iff]
  exact ⟨_, rfl, _, required_encode rfl rfl, _, required_encode rfl (Info.decode_encode _),
    _, defaulted_encode rfl (listOf_encode fun s _ => s.decode_encode),
    _, defaulted_encode rfl (listOf_encode fun t _ => t.decode_encode),
    _, defaulted_encode rfl (mapOf_encode fun e he => PathItem.decode_encode (h e he)),
    _, defaulted_encode rfl (Components.decode_encode _), rfl⟩

/-- A document that some value was decoded to reads back as itself from what it is written as. -/
theorem decode_encode_of_decode {v : Json} {doc : Document} (hv : v.Sorted) (h : decode? v = some doc) :
    decode? doc.encode = some doc :=
  (decode_canonical hv h).decode_encode

/-- A path with a reference and an item for parameters, a body of every kind of schema and an extension, and keys
    that may be missing mostly missing. -/
def everyForm : Json :=
  let pets := Json.object [
    ("type", .arr [.str "object", .str "null"]),
    ("properties", Json.object [("id", Json.object [("type", .str "integer")]), ("tag", Json.object [])]),
    ("additionalProperties", .bool false),
    ("enum", .arr [.null, .int 1])]
  let bag := Json.object [("additionalProperties", pets), ("allOf", .arr [pets]), ("nullable", .bool true)]
  let body := Json.object [("content", Json.object [("application/json", Json.object [("schema", bag)])])]
  let post := Json.object [
    ("x-internal", Json.object [("team", .str "pets")]),
    ("parameters", .arr [
      Json.object [("$ref", .str "#/components/parameters/Limit")],
      Json.object [("name", .str "id"), ("in", .str "path"), ("required", .bool true)]]),
    ("requestBody", body),
    ("responses", Json.object [("200", Json.object [("$ref", .str "#/components/responses/Pets")])])]
  Json.object [
    ("openapi", .str "3.1.0"),
    ("info", Json.object [("title", .str "Pets"), ("version", .str "1")]),
    ("paths", Json.object [("/pets/{id}", Json.object [("post", post)])])]

theorem everyForm_sorted : everyForm.Sorted := by
  unfold everyForm
  repeat' first
    | exact .null
    | exact .bool _
    | exact .int _
    | exact .str _
    | exact List.forall_mem_nil _
    | refine List.forall_mem_cons.mpr ⟨?_, ?_⟩
    | refine Json.object_sorted ?_
    | refine .arr ?_

theorem decode_encode_everyForm : ∃ doc, decode? everyForm = some doc ∧ decode? doc.encode = some doc := by
  have hdecode : (decode? everyForm).isSome = true := by decide +kernel
  obtain ⟨doc, hdoc⟩ := Option.isSome_iff_exists.mp hdecode
  exact ⟨doc, hdoc, decode_encode_of_decode everyForm_sorted hdoc⟩

/-- So does every document that is read from a text, since the values of texts are in order. -/
theorem decode_encode_of_text {text : String} {hint : Option String} {doc : Document} (h : ofText text hint = .ok doc) :
    decode? doc.encode = some doc := by
  obtain ⟨w, hw, hdecode⟩ := ofText_decoded h
  exact (decode_canonical hw hdecode).decode_encode

end Document

end ClientGen
