/-
  ClientGen.Number.Double — finite double-precision numbers, as integers.

  A double is `± mant · 2 ^ exp` with 53 bits of mantissa and `exp` from -1074 to 971.
  Arithmetic is done on exact ratios of naturals and rounded once:
  - `round?` gives the nearest double to a ratio, the one with the even mantissa of two equally
    near, and nothing when the ratio lies past the largest double.
  - Zero keeps its sign in the value but not in comparison (`same`).
-/

namespace ClientGen

structure Double where
  neg : Bool
  mant : Nat
  exp : Int
  deriving DecidableEq, Repr, Inhabited

namespace Double

def minExp : Int := -1074

def maxExp : Int := 971

def zero (neg : Bool) : Double := ⟨neg, 0, minExp⟩

/-- The magnitude is `numerator / denominator`. -/
def numerator (d : Double) : Nat := d.mant * Nat.pow 2 d.exp.toNat

def denominator (d : Double) : Nat := Nat.pow 2 (-d.exp).toNat

/-- The quotient to the nearest natural, a half to the even neighbour. -/
def divNearest (num den : Nat) : Nat :=
  let q := num / den
  let r := num % den
  if 2 * r < den then q else if den < 2 * r then q + 1 else if q % 2 == 0 then q else q + 1

/-- The exponent at which the mantissa of `num / den` has 53 bits, or the least one. -/
def exponentFor (num den : Nat) : Int :=
  let e : Int := (num.log2 : Int) - (den.log2 : Int) - 52
  let e := if num * Nat.pow 2 (-e).toNat < den * Nat.pow 2 e.toNat * Nat.pow 2 52 then e - 1 else e
  max e minExp

def round? (neg : Bool) (num den : Nat) : Option Double :=
  if num = 0 then some (zero neg)
  else
    let e := exponentFor num den
    let m := divNearest (num * Nat.pow 2 (-e).toNat) (den * Nat.pow 2 e.toNat)
    let (m, e) := if m = Nat.pow 2 53 then (Nat.pow 2 52, e + 1) else (m, e)
    if maxExp < e then none else some ⟨neg, m, e⟩

/-- The nearest double to a natural number below the largest double. -/
def ofNat (n : Nat) : Double := (round? false n 1).getD (zero false)

def negate (d : Double) : Double := { d with neg := !d.neg }

/-- Multiply by the double nearest to `10 ^ k`. -/
def mulPow10? (d : Double) (k : Nat) : Option Double := do
  let p ← round? false (Nat.pow 10 k) 1
  round? d.neg (d.numerator * p.numerator) (d.denominator * p.denominator)

/-- Divide by the double nearest to `10 ^ k`. -/
def divPow10? (d : Double) (k : Nat) : Option Double := do
  let p ← round? false (Nat.pow 10 k) 1
  round? d.neg (d.numerator * p.denominator) (d.denominator * p.numerator)

/-- The value as an integer, when it is one. -/
def toInt? (d : Double) : Option Int :=
  if d.numerator % d.denominator = 0 then
    let n : Int := (d.numerator / d.denominator : Nat)
    some (if d.neg then -n else n)
  else none

/-- Equality of values: both zeros are the same number. -/
def same (a b : Double) : Bool := a == b || (a.mant == 0 && b.mant == 0)

end Double

end ClientGen
