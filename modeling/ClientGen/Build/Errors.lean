import ClientGen.Model.Api
import ClientGen.Resolve.Merge

/-
  ClientGen.Build.Errors — which declarations are errors.

  The declared types of error responses are errors, and so is what an alias among them stands
  for, along the whole chain.
-/

namespace ClientGen

/-- The aliases of named types; of two declarations with one name the later counts. -/
def namedAliases (ds : List Declaration) : KeyMap String := KeyMap.ofList (ds.filterMap Declaration.aliasOfNamed?)

/-- Add to `marked` what the names of `todo` stand for. -/
def followErrors (aliases : KeyMap String) (marked : List String) : List String → List String
  | [] => marked
  | name :: rest =>
    match h : KeyMap.get? aliases name with
    | none => followErrors aliases marked rest
    | some target =>
      if marked.contains target then followErrors aliases marked rest
      else
        have := length_withoutKey_lt h
        followErrors (withoutKey name aliases) (target :: marked) (target :: rest)
termination_by todo => (aliases.length, todo.length)

def markErrors (names : List String) (ds : List Declaration) : List Declaration :=
  ds.map fun d => if names.contains d.name then d.markError else d

end ClientGen
