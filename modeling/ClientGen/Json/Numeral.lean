import ClientGen.Json.Value

/-
  ClientGen.Json.Numeral — from the text of a number to its value.

  - Without fraction and exponent, a numeral that fits 64 bits (signed when negative) is an
    integer. `-0` is not: it is the negative float zero.
  - Every other numeral is a double. Its significand takes digits as long as it fits 64 bits:
    further whole digits only raise the exponent, further fraction digits are dropped. The
    significand is rounded to a double and then multiplied or divided by a power of ten, each
    step rounded. A value past the largest double is refused.
-/

namespace ClientGen.Json

structure Numeral where
  neg : Bool
  whole : List Char
  /-- Digits after the point; never empty when present. -/
  fraction : Option (List Char)
  exponent : Option Int
  deriving Repr

def digitValue (c : Char) : Nat := c.toNat - '0'.toNat

def digitsValue (digits : List Char) : Nat := digits.foldl (fun n c => n * 10 + digitValue c) 0

def wordLimit : Nat := Nat.pow 2 64

/-- Append digits to a significand while it fits 64 bits; also the digits left over. -/
def takeSignificand (sig : Nat) : List Char → Nat × List Char
  | [] => (sig, [])
  | c :: rest =>
    let next := sig * 10 + digitValue c
    if next < wordLimit then takeSignificand next rest else (sig, c :: rest)

/-- Divide by `10 ^ k` in steps of at most `10 ^ 308`, stopping at zero. -/
def divideDown (x : Double) (k : Nat) : Nat → Option Double
  | 0 => some x
  | steps + 1 =>
    if k ≤ 308 then x.divPow10? k
    else if x.mant = 0 then some x
    else do divideDown (← x.divPow10? 308) (k - 308) steps

/-- `sig · 10 ^ e`, rounded at each step. -/
def scaled? (sig : Nat) (e : Int) : Option Double :=
  let x := Double.ofNat sig
  if 0 ≤ e then
    if e ≤ 308 then x.mulPow10? e.toNat else if x.mant = 0 then some x else none
  else divideDown x (-e).toNat ((-e).toNat / 308 + 1)

def Numeral.double? (t : Numeral) : Option Double := do
  let (sig, dropped) := takeSignificand 0 t.whole
  let fraction := t.fraction.getD []
  let (sig', unused) := takeSignificand sig fraction
  let used := fraction.length - unused.length
  let x ← scaled? sig' (dropped.length - used + t.exponent.getD 0)
  return if t.neg then x.negate else x

def Numeral.value? (t : Numeral) : Option Json :=
  let n := digitsValue t.whole
  if t.fraction.isSome || t.exponent.isSome then t.double?.map .float
  else if t.neg then
    if 0 < n && n ≤ Nat.pow 2 63 then some (.int (-n)) else t.double?.map .float
  else if n < wordLimit then some (.int n) else t.double?.map .float

end ClientGen.Json
