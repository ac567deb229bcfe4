import ClientGen.KeyMap
import ClientGen.Yaml.Token

/-
  ClientGen.Yaml.Event — the grammar: from tokens to the events of one document.

  A collection is its start, what it holds, and its end; a mapping holds keys and values in turn.
  What a text leaves out (a value without text, a key without value) is an empty scalar. Directives
  stand in front of a document. A text holds at most one document, or nothing at all.

  The grammar needs one token in sight, so it is told by a stack of what is due: a step takes
  the first thing due, perhaps some tokens, and may make other things due.
-/

namespace ClientGen.Yaml

structure Properties (ref : Type) where
  anchor : Option ref
  tag : Option String
  deriving Repr

/-- Anchors and aliases are told by a `ref`: the name as written, or its number. -/
inductive Event (ref : Type) where
  | scalar (properties : Properties ref) (plain : Bool) (text : String)
  | reference (target : ref)
  | sequenceStart (properties : Properties ref)
  | sequenceEnd
  | mappingStart (properties : Properties ref)
  | mappingEnd
  deriving Repr

namespace Event

def empty : Event String := .scalar ⟨none, none⟩ true ""

/-! ## Directives -/

/-- The prefixes of tag handles. -/
abbrev Handles := List (String × String)

def standardHandles : Handles := [("!", "!"), ("!!", "tag:yaml.org,2002:")]

/-- Directives up to the mark that must follow them; a handle or the version may not be given twice. -/
def directives (versioned : Bool) (handles : Handles) : List Token → Option (Handles × List Token)
  | .version major minor :: rest =>
    if versioned || major != 1 || !(minor == 1 || minor == 2) then none else directives true handles rest
  | .tagHandle handle stem :: rest =>
    if (handles.lookup handle).isSome then none else directives versioned ((handle, stem) :: handles) rest
  | .documentStart :: rest => some (handles ++ standardHandles, rest)
  | _ => none

def fullTag (handles : Handles) (handle suffix : String) : Option String :=
  if handle.isEmpty then some suffix else (handles.lookup handle).map (· ++ suffix)

/-- The anchor and the tag in front of a node, in either order. -/
def properties (handles : Handles) : List Token → Option (Properties String × List Token)
  | .anchor name :: .tag handle suffix :: rest =>
    (fullTag handles handle suffix).map fun tag => (⟨some name, some tag⟩, rest)
  | .tag handle suffix :: .anchor name :: rest =>
    (fullTag handles handle suffix).map fun tag => (⟨some name, some tag⟩, rest)
  | .anchor name :: rest => some (⟨some name, none⟩, rest)
  | .tag handle suffix :: rest => (fullTag handles handle suffix).map fun tag => (⟨none, some tag⟩, rest)
  | rest => some (⟨none, none⟩, rest)

/-! ## Nodes -/

inductive Due where
  /-- A node; block collections are for `block` only, and a block sequence may stand at the margin
      of its mapping when `atMargin`. -/
  | node (block atMargin : Bool)
  | blockItem
  | marginItem
  | blockKey
  | blockValue
  | flowItem (first : Bool)
  | pairKey
  | pairValue
  | pairEnd
  | flowKey (first : Bool)
  | flowValue
  /-- The value of a flow entry that has no key mark. -/
  | noValue

structure Reading where
  due : List Due
  tokens : List Token
  /-- The last first. -/
  events : List (Event String)

/-- The next token is no node: what should stand here is left out. -/
def isLeftOut (ends : List Token) : List Token → Bool
  | [] => false
  | t :: _ => ends.contains t

def content (block atMargin : Bool) (p : Properties String) (r : Reading) : Option Reading :=
  match r.tokens with
  | .scalar plain text :: rest =>
    let p := if p.tag = some "!" then { p with tag := none } else p
    some { r with tokens := rest, events := .scalar p plain text :: r.events }
  | .flowSequenceStart :: rest => some ⟨.flowItem true :: r.due, rest, .sequenceStart p :: r.events⟩
  | .flowMappingStart :: rest => some ⟨.flowKey true :: r.due, rest, .mappingStart p :: r.events⟩
  | t :: rest =>
    if atMargin && t == .blockEntry then some ⟨.marginItem :: r.due, t :: rest, .sequenceStart p :: r.events⟩
    else if block && t == .blockSequenceStart then some ⟨.blockItem :: r.due, rest, .sequenceStart p :: r.events⟩
    else if block && t == .blockMappingStart then some ⟨.blockKey :: r.due, rest, .mappingStart p :: r.events⟩
    else leftOut
  | [] => leftOut
where
  leftOut : Option Reading :=
    if p.anchor.isSome || p.tag.isSome then some { r with events := .scalar p true "" :: r.events } else none

def node (handles : Handles) (block atMargin : Bool) (r : Reading) : Option Reading :=
  match r.tokens with
  | .reference name :: rest => some { r with tokens := rest, events := .reference name :: r.events }
  | _ => do
    let (p, rest) ← properties handles r.tokens
    content block atMargin p { r with tokens := rest }

/-- A node in front of one of `ends`, or an empty scalar; `next` is due behind it. -/
def nodeOrEmpty (kind : Due) (ends : List Token) (next : Due) (r : Reading) : Reading :=
  if isLeftOut ends r.tokens then { r with due := next :: r.due, events := empty :: r.events }
  else { r with due := kind :: next :: r.due }

def finish (e : Event String) (rest : List Token) (r : Reading) : Option Reading :=
  some { r with tokens := rest, events := e :: r.events }

/-- Skip the comma in front of an entry that is not the first. -/
def afterComma (first : Bool) (close : Token) (tokens : List Token) : Option (List Token) :=
  if first || tokens.head? == some close then some tokens
  else
    match tokens with
    | .flowEntry :: rest => some rest
    | _ => none

/-- One step for `due`, which is taken from the stack of `r` already. -/
def step (handles : Handles) (due : Due) (r : Reading) : Option Reading :=
  match due with
  | .node block atMargin => node handles block atMargin r
  | .blockItem =>
    match r.tokens with
    | .blockEntry :: rest =>
      some (nodeOrEmpty (.node true false) [.blockEntry, .blockEnd] .blockItem { r with tokens := rest })
    | .blockEnd :: rest => finish .sequenceEnd rest r
    | _ => none
  | .marginItem =>
    match r.tokens with
    | .blockEntry :: rest =>
      some (nodeOrEmpty (.node true false) [.blockEntry, .key, .value, .blockEnd] .marginItem { r with tokens := rest })
    | rest => finish .sequenceEnd rest r
  | .blockKey =>
    match r.tokens with
    | .key :: rest =>
      some (nodeOrEmpty (.node true true) [.key, .value, .blockEnd] .blockValue { r with tokens := rest })
    | .blockEnd :: rest => finish .mappingEnd rest r
    | _ => none
  | .blockValue =>
    match r.tokens with
    | .value :: rest =>
      some (nodeOrEmpty (.node true true) [.key, .value, .blockEnd] .blockKey { r with tokens := rest })
    | rest => some ⟨.blockKey :: r.due, rest, empty :: r.events⟩
  | .flowItem first => do
    match ← afterComma first .flowSequenceEnd r.tokens with
    | .flowSequenceEnd :: rest => finish .sequenceEnd rest r
    | .key :: rest => return ⟨.pairKey :: r.due, rest, .mappingStart ⟨none, none⟩ :: r.events⟩
    | rest => return ⟨.node false false :: .flowItem false :: r.due, rest, r.events⟩
  | .pairKey =>
    -- A key that is left out takes the token behind it along.
    if isLeftOut [.value, .flowEntry, .flowSequenceEnd] r.tokens then
      some ⟨.pairValue :: r.due, r.tokens.drop 1, empty :: r.events⟩
    else some { r with due := .node false false :: .pairValue :: r.due }
  | .pairValue =>
    match r.tokens with
    | .value :: rest =>
      some (nodeOrEmpty (.node false false) [.flowEntry, .flowSequenceEnd] .pairEnd { r with tokens := rest })
    | rest => some ⟨.pairEnd :: r.due, rest, empty :: r.events⟩
  | .pairEnd => some ⟨.flowItem false :: r.due, r.tokens, .mappingEnd :: r.events⟩
  | .flowKey first => do
    match ← afterComma first .flowMappingEnd r.tokens with
    | .flowMappingEnd :: rest => finish .mappingEnd rest r
    | .key :: rest =>
      return nodeOrEmpty (.node false false) [.value, .flowEntry, .flowMappingEnd] .flowValue { r with tokens := rest }
    | rest => return ⟨.node false false :: .noValue :: r.due, rest, r.events⟩
  | .flowValue =>
    match r.tokens with
    | .value :: rest =>
      some (nodeOrEmpty (.node false false) [.flowEntry, .flowMappingEnd] (.flowKey false) { r with tokens := rest })
    | rest => some ⟨.flowKey false :: r.due, rest, empty :: r.events⟩
  | .noValue => some ⟨.flowKey false :: r.due, r.tokens, empty :: r.events⟩

/-- Read until nothing is due. A token leads to a few steps at most, which bounds their number. -/
def run (handles : Handles) : Nat → Reading → Option Reading
  | 0, _ => none
  | bound + 1, r =>
    match r.due with
    | [] => some r
    | due :: rest => do run handles bound (← step handles due { r with due := rest })

/-! ## Documents -/

def endsDocument (tokens : List Token) : Bool :=
  match tokens with
  | [] => true
  | .version _ _ :: _ | .tagHandle _ _ :: _ | .documentStart :: _ | .documentEnd :: _ => true
  | _ => false

/-- The events of the root node, behind which no other document may start. -/
def root (handles : Handles) (tokens : List Token) : Option (List (Event String)) := do
  let r ← run handles (8 * tokens.length + 8) ⟨[.node true false], tokens, []⟩
  if r.tokens.all (· == .documentEnd) then return r.events.reverse else none

/-- The events of the document; there are none in an empty text. -/
def ofTokens? : List Token → Option (List (Event String))
  | [] => some []
  | tokens =>
    match tokens with
    | .version _ _ :: _ | .tagHandle _ _ :: _ | .documentStart :: _ => do
      let (handles, rest) ← directives false [] tokens
      if endsDocument rest then
        if rest.all (· == .documentEnd) then return [empty] else none
      else root handles rest
    | tokens => root standardHandles tokens

end Event

end ClientGen.Yaml
