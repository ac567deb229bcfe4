/-
  ClientGen.Yaml.Token — the tokens of YAML text.

  Indentation is told by tokens of its own, so that a text is a plain list of tokens: a block
  collection stands between its start and `blockEnd`. A key is marked in front, whether it was
  written with an indicator or not.
-/

namespace ClientGen.Yaml

inductive Token where
  | version (major minor : Nat)
  | tagHandle (handle stem : String)
  | documentStart
  | documentEnd
  | blockSequenceStart
  | blockMappingStart
  | blockEnd
  | flowSequenceStart
  | flowSequenceEnd
  | flowMappingStart
  | flowMappingEnd
  | blockEntry
  | flowEntry
  | key
  | value
  | reference (name : String)
  | anchor (name : String)
  | tag (handle suffix : String)
  | scalar (plain : Bool) (text : String)
  deriving DecidableEq, Repr

end ClientGen.Yaml
