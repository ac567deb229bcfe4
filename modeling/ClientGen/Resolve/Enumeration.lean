import ClientGen.Json.Writer
import ClientGen.Resolve.Basic

/-
  ClientGen.Resolve.Enumeration — enums.

  An enum is declared under the singular of its name. Its scalar is that of its type, or of its
  first literal; a literal of another kind is skipped with a diagnostic. Enums over booleans, or
  over literals without a common scalar, become aliases.
  Variants are named by their literal and ordered by name; a repeated name is numbered.
-/

namespace ClientGen

namespace Double

def ofInt (n : Int) : Double := ⟨decide (n < 0), (ofNat n.natAbs).mant, (ofNat n.natAbs).exp⟩

end Double

/-- The number of negative 64-bit integers. -/
def signLimit : Int := (Nat.pow 2 63 : Nat)

/-- The nearest 64-bit integer. -/
def clampInt64 (n : Int) : Int := if n < -signLimit then -signLimit else if n < signLimit then n else signLimit - 1

namespace Literal

/-- A whole number of 64 bits; larger ones go through a double first. -/
def integer? : Json → Option Literal
  | .int n =>
    if n < signLimit then some (.integer n) else ((Double.ofInt n).toInt?).map fun m => .integer (clampInt64 m)
  | .float x => x.toInt?.map fun m => .integer (clampInt64 m)
  | _ => none

def float? : Json → Option Literal
  | .int n => some (.float (.ofInt n))
  | .float x => some (.float x)
  | _ => none

/-- The literal for a value of an enum over `scalar`, if the value is of that kind. -/
def ofJson? (scalar : Scalar) (v : Json) : Option Literal :=
  match scalar with
  | .string => v.str?.map .text
  | .integer => integer? v
  | .int64 => integer? v
  | .float => float? v
  | .boolean => none

end Literal

/-- The scalar of an enum that has variants. -/
def enumScalar? (s : Schema) : Option Scalar :=
  match enumPrimitive? s with
  | some .string => some .string
  | some .integer => if s.format = some "int64" then some .int64 else some .integer
  | some .number => some .float
  | some .boolean => none
  | none => none

def variantName (enumName : String) (l : Literal) : String :=
  let suffix := Name.spelled l.display
  if suffix = "" then enumName ++ "Empty" else enumName ++ suffix

/-- Variants for the values in their order, and a diagnostic for each value of another kind. -/
def variantsOf (name : String) (scalar : Scalar) (names : NameSet) : List Json → List Variant × List Diagnostic
  | [] => ([], [])
  | v :: rest =>
    match Literal.ofJson? scalar v with
    | some l =>
      let (chosen, names) := names.claim (variantName name l)
      let (variants, ds) := variantsOf name scalar names rest
      (⟨chosen, l⟩ :: variants, ds)
    | none =>
      let (variants, ds) := variantsOf name scalar names rest
      (variants, .enumValueMismatch name v.write scalar :: ds)

namespace Resolve

def enumeration (s : Schema) (desired : String) : Resolve Resolution :=
  let name := Name.singular desired
  declaring name s do
    match enumScalar? s with
    | some scalar =>
      let (variants, ds) := variantsOf name scalar .empty s.enumList
      reportAll ds
      return (.enumeration ⟨name, scalar, sortByText (·.name) variants, s.documentation⟩, [])
    | none =>
      let target := if enumPrimitive? s = some .boolean then .scalar .boolean else .any
      report (.unsupportedEnum name s.primaryType target)
      return (.type (.aliasOf name target s.documentation), [])

end Resolve

end ClientGen
