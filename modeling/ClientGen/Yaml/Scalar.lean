import ClientGen.Json.Reader

/-
  ClientGen.Yaml.Scalar — what the text of a scalar stands for.

  - A plain scalar is null, a boolean, an integer or a float if its text says so, and text
    otherwise. Digits behind a leading zero are text.
  - A core tag asks for one kind of value, and then the text must fit. Any other tag, and quotes, make text.
  - Integers are read in radix 2, 8, 10 or 16. One that fits 128 bits but not 64 has no value at all; a
    longer one is a float.
  - Infinities and not-a-number are null.
-/

namespace ClientGen.Yaml

def isNull (text : String) : Bool := ["null", "Null", "NULL", "~"].contains text

def bool? (text : String) : Option Bool :=
  if ["true", "True", "TRUE"].contains text then some true
  else if ["false", "False", "FALSE"].contains text then some false
  else none

/-! ## Integers -/

def numeralOf? (radix : Nat) (digits : List Char) : Option Nat :=
  if digits.isEmpty then none
  else digits.foldlM (fun n c => do
    let d ← Json.hexValue? c
    if d < radix then some (n * radix + d) else none) 0

/-- Digits behind a leading zero, perhaps with a sign. -/
def isZeroPadded (cs : List Char) : Bool :=
  match cs with
  | '+' :: rest | '-' :: rest => padded rest
  | rest => padded rest
where
  padded : List Char → Bool
    | '0' :: d :: rest => (d :: rest).all Char.isDigit
    | _ => false

/-- Digits with the radix that is written in front of them. -/
def radixDigits? : List Char → Option Nat
  | '0' :: 'x' :: digits => numeralOf? 16 digits
  | '0' :: 'o' :: digits => numeralOf? 8 digits
  | '0' :: 'b' :: digits => numeralOf? 2 digits
  | _ => none

/-- A value that is not there although the text says what it is. -/
inductive Reading (α : Type) where
  | value (a : α)
  | tooLarge
  | other

def integer (cs : List Char) : Reading Int :=
  let magnitude? (digits : List Char) : Option Nat :=
    (radixDigits? digits).or (if isZeroPadded cs then none else numeralOf? 10 digits)
  let read (digits : List Char) (neg : Bool) (most word : Nat) : Reading Int :=
    match magnitude? digits with
    | none => .other
    | some n => if n ≤ most then .value (if neg then -n else n) else if n ≤ word then .tooLarge else .other
  match cs with
  | '-' :: digits => read digits true (Nat.pow 2 63) (Nat.pow 2 127)
  | '+' :: digits => read digits false (Nat.pow 2 64 - 1) (Nat.pow 2 128 - 1)
  | digits => read digits false (Nat.pow 2 64 - 1) (Nat.pow 2 128 - 1)

/-! ## Floats -/

/-- The double nearest to `digits · 10 ^ e`, unless it is past all of them. -/
def nearest? (neg : Bool) (digits : List Char) (e : Int) : Option Double :=
  let n := Json.digitsValue digits
  let top : Int := digits.length + e
  if n = 0 ∨ top < -400 then some (.zero neg)
  else if (digits.dropWhile (· == '0')).length + e > 400 then none
  else if 0 ≤ e then Double.round? neg (n * Nat.pow 10 e.toNat) 1
  else Double.round? neg n (Nat.pow 10 (-e).toNat)

def decimal? (neg : Bool) (cs : List Char) : Option Double := do
  let whole := cs.takeWhile Char.isDigit
  let (fraction, rest) := match cs.dropWhile Char.isDigit with
    | '.' :: rest => (rest.takeWhile Char.isDigit, rest.dropWhile Char.isDigit)
    | rest => ([], rest)
  if whole.isEmpty && fraction.isEmpty then none
  else
    let (exponent, rest) ← Json.exponentPart rest
    if rest.isEmpty then nearest? neg (whole ++ fraction) (exponent.getD 0 - fraction.length) else none

/-- A float; those that JSON cannot say are null. -/
def float? (text : String) : Option Json :=
  if [".inf", ".Inf", ".INF", "+.inf", "+.Inf", "+.INF", "-.inf", "-.Inf", "-.INF", ".nan", ".NaN", ".NAN"].contains text then
    some .null
  else
    match text.toList with
    | '-' :: cs => (decimal? true cs).map .float
    | '+' :: cs | cs => (decimal? false cs).map .float

/-! ## Values -/

def plainValue? (text : String) : Option Json :=
  if text.isEmpty || isNull text then some .null
  else
    match bool? text with
    | some b => some (.bool b)
    | none =>
      match integer text.toList with
      | .value n => some (.int n)
      | .tooLarge => none
      | .other =>
        match if isZeroPadded text.toList then none else float? text with
        | some v => some v
        | none => some (.str text)

/-- A tag that is no standard one. -/
def isLocalTag (tag : Option String) : Bool := tag.any fun t => t.toList.head? == some '!'

def scalarValue? (tag : Option String) (plain : Bool) (text : String) : Option Json :=
  match tag with
  | none => if plain then plainValue? text else some (.str text)
  | some t =>
    if isLocalTag tag then none
    else if t = "tag:yaml.org,2002:bool" then (bool? text).map .bool
    else if t = "tag:yaml.org,2002:int" then
      match integer text.toList with
      | .value n => some (.int n)
      | _ => none
    else if t = "tag:yaml.org,2002:float" then float? text
    else if t = "tag:yaml.org,2002:null" then if isNull text then some .null else none
    else some (.str text)

end ClientGen.Yaml
