import ClientGen.Number.Double

/-
  ClientGen.Number.Shortest — the fewest decimal digits that read back to a double, and the two
  ways in which this library lays them out.

  The reals that round to a double form an interval around it, with its ends when the mantissa
  is even. Going from coarse to fine over the grids `10 ^ k`, the first grid with a point in the
  interval has the shortest such decimal; of two points on it the nearer is taken.
  - `toPlain` writes all digits positionally: `100`, `0.0000001`.
  - `toScientific` always shows a fraction, and switches to an exponent at `10 ^ 16` and below
    `10 ^ -5`: `1.0`, `1e+16`, `1e-7`.
-/

namespace ClientGen.Double

/-- Four times the value and the ends of its rounding interval, over one denominator. -/
structure Rounding where
  low : Nat
  value : Nat
  high : Nat
  den : Nat
  closed : Bool

def rounding (d : Double) : Rounding :=
  let unit := Nat.pow 2 d.exp.toNat
  let lowGap := if d.mant = Nat.pow 2 52 ∧ minExp < d.exp then unit else 2 * unit
  ⟨4 * d.mant * unit - lowGap, 4 * d.mant * unit, 4 * d.mant * unit + 2 * unit, 4 * d.denominator, d.mant % 2 == 0⟩

/-- Whether `n / den` rounds to the value. -/
def Rounding.admits (r : Rounding) (num den : Nat) : Bool :=
  let x := num * r.den
  if r.closed then r.low * den ≤ x && x ≤ r.high * den else r.low * den < x && x < r.high * den

/-- The digits of the point of the grid `10 ^ k` that reads back, the nearer of two. -/
def gridPoint? (r : Rounding) (k : Int) : Option Nat :=
  let up := Nat.pow 10 k.toNat
  let down := Nat.pow 10 (-k).toNat
  let below := r.value * down / (r.den * up)
  let fits (n : Nat) : Bool := n != 0 && r.admits (n * up) down
  match fits below, fits (below + 1) with
  | true, true =>
    let scaled := r.value * down
    let unit := r.den * up
    if 2 * (scaled - below * unit) < unit then some below else some (below + 1)
  | true, false => some below
  | false, true => some (below + 1)
  | false, false => none

/-- Search from the grid `10 ^ k` downwards, `steps` grids at most. -/
def searchGrid (r : Rounding) (k : Int) : Nat → Option (Nat × Int)
  | 0 => none
  | steps + 1 =>
    match gridPoint? r k with
    | some n => some (n, k)
    | none => searchGrid r (k - 1) steps

/-- Shortest digits and their exponent: the magnitude is near `digits · 10 ^ exponent`. -/
def shortest (d : Double) : Nat × Int :=
  if d.mant = 0 then (0, 0)
  else
    let top : Int := ((d.mant.log2 : Int) + 1 + d.exp) * 30103 / 100000 + 1
    (searchGrid (rounding d) top 24).getD (0, 0)

/-! ## Layout -/

def zeros (n : Nat) : List Char := List.replicate n '0'

/-- Digits with the point `point` places after the first one's front. -/
def positional (digits : List Char) (point : Int) : List Char × List Char :=
  if point ≤ 0 then (['0'], zeros (-point).toNat ++ digits)
  else
    let n := point.toNat
    if digits.length ≤ n then (digits ++ zeros (n - digits.length), [])
    else (digits.take n, digits.drop n)

def signChars (d : Double) : List Char := if d.neg then ['-'] else []

/-- Positional at every size, without a fraction for whole numbers. -/
def toPlain (d : Double) : String :=
  let (n, k) := d.shortest
  let digits := (toString n).toList
  let (whole, fraction) := if n = 0 then (['0'], []) else positional digits (digits.length + k)
  String.ofList (d.signChars ++ whole ++ (if fraction.isEmpty then [] else '.' :: fraction))

/-- Positional from `10 ^ -5` up to `10 ^ 16` with at least one fraction digit, else scientific. -/
def toScientific (d : Double) : String :=
  let (n, k) := d.shortest
  let digits := (toString n).toList
  let point : Int := digits.length + k
  String.ofList <| d.signChars ++
    if n = 0 then "0.0".toList
    else if -5 < point ∧ point ≤ 16 then
      let (whole, fraction) := positional digits point
      whole ++ '.' :: (if fraction.isEmpty then ['0'] else fraction)
    else
      let e := point - 1
      let mantissa := match digits with
        | [c] => [c]
        | c :: rest => c :: '.' :: rest
        | [] => []
      mantissa ++ 'e' :: (if e < 0 then '-' else '+') :: (toString e.natAbs).toList

end ClientGen.Double
