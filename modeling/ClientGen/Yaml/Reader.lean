import ClientGen.Yaml.Event
import ClientGen.Yaml.Scalar
import ClientGen.Yaml.Token.Lexer

/-
  ClientGen.Yaml.Reader — reading YAML text as a JSON value.

  - Keys are texts: a scalar is its text, whatever it would be as a value, and a collection is no key.
  - An anchored node gets the number of names known by then, so a name that is given twice lets
    numbers be used twice; an alias stands for the last node of its number. Aliases may be
    followed only so often for the size of the text.
  - Collections nest at most `maxDepth` deep, aliases included. An empty text is null.
-/

namespace ClientGen.Yaml

def maxDepth : Nat := 128

/-! ## Anchors -/

def linkProperties (names : KeyMap Nat) (p : Properties String) : Properties Nat × KeyMap Nat :=
  match p.anchor with
  | none => (⟨none, p.tag⟩, names)
  | some name => (⟨some names.length, p.tag⟩, KeyMap.insert name names.length names)

/-- Give anchors their numbers; an alias needs an anchor in front of it. -/
def link (names : KeyMap Nat) (out : List (Event Nat)) : List (Event String) → Option (List (Event Nat))
  | [] => some out.reverse
  | e :: rest =>
    match e with
    | .scalar p plain text =>
      let (p, names) := linkProperties names p
      link names (.scalar p plain text :: out) rest
    | .sequenceStart p =>
      let (p, names) := linkProperties names p
      link names (.sequenceStart p :: out) rest
    | .mappingStart p =>
      let (p, names) := linkProperties names p
      link names (.mappingStart p :: out) rest
    | .reference name => do link names (.reference (← KeyMap.get? names name) :: out) rest
    | .sequenceEnd => link names (.sequenceEnd :: out) rest
    | .mappingEnd => link names (.mappingEnd :: out) rest

abbrev Events := List (Event Nat)

def anchorOf? : Event Nat → Option Nat
  | .scalar p _ _ | .sequenceStart p | .mappingStart p => p.anchor
  | _ => none

/-- The events from each anchored node on, the last node first. -/
def targetsOf (found : List (Nat × Events)) : Events → List (Nat × Events)
  | [] => found
  | e :: rest =>
    match anchorOf? e with
    | some n => targetsOf ((n, e :: rest) :: found) rest
    | none => targetsOf found rest

/-! ## Values -/

/-- A reader of events is told how many aliases may still be followed, and gives back the rest. -/
abbrev EventReader (α : Type) := Events → Nat → Option (α × Events × Nat)

/-- Follow an alias in front. -/
def followAlias (targets : List (Nat × Events)) (read : EventReader α) : EventReader α
  | .reference n :: rest, aliases + 1 => do
    let (a, _, aliases) ← read (← targets.lookup n) aliases
    return (a, rest, aliases)
  | .reference _ :: _, 0 => none
  | es, aliases => read es aliases

def keyText : EventReader String
  | .scalar _ _ text :: rest, aliases => some (text, rest, aliases)
  | _, _ => none

def itemsUpTo (read : EventReader α) : Nat → EventReader (List α)
  | 0, _, _ => none
  | _ + 1, .sequenceEnd :: rest, aliases => some ([], rest, aliases)
  | _ + 1, .mappingEnd :: rest, aliases => some ([], rest, aliases)
  | bound + 1, es, aliases => do
    let (a, rest, aliases) ← read es aliases
    let (as, rest, aliases) ← itemsUpTo read bound rest aliases
    return (a :: as, rest, aliases)

def pair (key : EventReader String) (value : EventReader Json) : EventReader (String × Json) := fun es aliases => do
  let (k, rest, aliases) ← key es aliases
  let (v, rest, aliases) ← value rest aliases
  return ((k, v), rest, aliases)

/-- A scalar or a collection; `inner` reads the values of the collection. -/
def nodeValue (targets : List (Nat × Events)) (bound : Nat) (inner : Option (EventReader Json)) : EventReader Json
  | .scalar p plain text :: rest, aliases => (scalarValue? p.tag plain text).map (·, rest, aliases)
  | .sequenceStart p :: rest, aliases => do
    if isLocalTag p.tag then failure
    let (items, rest, aliases) ← itemsUpTo (← inner) bound rest aliases
    return (.arr items, rest, aliases)
  | .mappingStart p :: rest, aliases => do
    if isLocalTag p.tag then failure
    let (fields, rest, aliases) ← itemsUpTo (pair (followAlias targets keyText) (← inner)) bound rest aliases
    return (Json.object fields, rest, aliases)
  | _, _ => none

/-- A value with collections nested at most `depth` deep. -/
def value (targets : List (Nat × Events)) (bound : Nat) : Nat → EventReader Json
  | 0 => followAlias targets (nodeValue targets bound none)
  | depth + 1 => followAlias targets (nodeValue targets bound (some (value targets bound depth)))

/-- The value of a whole text. -/
def read? (text : String) : Option Json := do
  let events ← link [] [] (← Event.ofTokens? (← Token.ofText? text))
  if events.isEmpty then return .null
  let (v, _, _) ← value (targetsOf [] events) events.length maxDepth events (100 * events.length)
  return v

end ClientGen.Yaml
