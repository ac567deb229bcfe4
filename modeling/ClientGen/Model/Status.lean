/-
  ClientGen.Model.Status — the keys of responses.

  A key is `default`, a range such as `4XX` in either case, or a code from 100 to 599. A code is
  read as a number, so a plus sign and leading zeros are allowed in front.
-/

namespace ClientGen

inductive Status where
  | code (n : Nat)
  /-- The codes from `n` to `n + 99`. -/
  | range (n : Nat)
  | default
  deriving DecidableEq, Repr

namespace Status

def isX (c : Char) : Bool := c == 'x' || c == 'X'

/-- The value of a nonempty run of digits. -/
def decimal? (cs : List Char) : Option Nat :=
  if cs.isEmpty || !cs.all Char.isDigit then none
  else some (cs.foldl (fun n c => n * 10 + (c.toNat - '0'.toNat)) 0)

def unsigned? : List Char → Option Nat
  | '+' :: rest => decimal? rest
  | cs => decimal? cs

/-- What stands before a final `XX`. -/
def rangeStart? (cs : List Char) : Option (List Char) :=
  match cs.reverse with
  | a :: b :: rest => if isX a && isX b then some rest.reverse else none
  | _ => none

def ofChars? (cs : List Char) : Option Status :=
  if cs = ['d', 'e', 'f', 'a', 'u', 'l', 't'] then some .default
  else match rangeStart? cs with
    | some [c] => if '1' ≤ c ∧ c ≤ '5' then some (.range (100 * (c.toNat - '0'.toNat))) else none
    | some _ => none
    | none => (unsigned? cs).bind fun n => if 100 ≤ n ∧ n < 600 then some (.code n) else none

def parse? (key : String) : Option Status := ofChars? key.toList

/-- The number by which responses are sorted; `default` comes last by other means. -/
def sortKey : Status → Nat
  | .code n => n
  | .range n => n
  | .default => 0

/-- Whether a response with status code `n` falls under the key. -/
def Covers : Status → Nat → Prop
  | .code m, n => n = m
  | .range m, n => m ≤ n ∧ n < m + 100
  | .default, _ => True

end Status

end ClientGen
