/-
  ClientGen.Text.Utf8 — text from bytes.

  Bytes that make up no character are refused by `decode?`. `decodeLossy` writes U+FFFD for each
  longest run of bytes that could have started a character but does not go on as one.
-/

namespace ClientGen.Utf8

/-- How a character of more than one byte goes on behind its first byte: the range of the
    second byte, and how many come after that. -/
def tail? (first : Nat) : Option (Nat × Nat × Nat) :=
  if 0xC2 ≤ first ∧ first < 0xE0 then some (0x80, 0xC0, 0)
  else if first = 0xE0 then some (0xA0, 0xC0, 1)
  else if first = 0xED then some (0x80, 0xA0, 1)
  else if 0xE0 ≤ first ∧ first < 0xF0 then some (0x80, 0xC0, 1)
  else if first = 0xF0 then some (0x90, 0xC0, 2)
  else if 0xF0 ≤ first ∧ first < 0xF4 then some (0x80, 0xC0, 2)
  else if first = 0xF4 then some (0x80, 0x90, 2)
  else none

/-- The character so far, the range of the byte that is due, and how many come after it. -/
structure Open where
  value : Nat
  low : Nat
  high : Nat
  more : Nat

/-- Start a character, or be done with it. -/
def start (b : Nat) : Option Char × Option Open :=
  if b < 0x80 then (some (Char.ofNat b), none)
  else
    match tail? b with
    | some (low, high, more) => (none, some ⟨b % (0x40 / Nat.pow 2 (more + 1)), low, high, more⟩)
    | none => (none, none)

/-- The characters of bytes, and `none` for each run that makes up none. -/
def pieces (current : Option Open) : List Nat → List (Option Char)
  | [] => if current.isSome then [none] else []
  | b :: rest =>
    let begin : List (Option Char) → List (Option Char) := fun before =>
      match start b with
      | (some c, _) => before ++ some c :: pieces none rest
      | (none, some o) => before ++ pieces (some o) rest
      | (none, none) => before ++ none :: pieces none rest
    match current with
    | none => begin []
    | some o =>
      if o.low ≤ b ∧ b < o.high then
        let value := o.value * 0x40 + b % 0x40
        match o.more with
        | 0 => some (Char.ofNat value) :: pieces none rest
        | more + 1 => pieces (some ⟨value, 0x80, 0xC0, more⟩) rest
      else begin [none]

def bytes (b : ByteArray) : List Nat := b.toList.map UInt8.toNat

def decode? (b : ByteArray) : Option String := ((pieces none (bytes b)).mapM id).map String.ofList

def decodeLossy (b : ByteArray) : String := String.ofList ((pieces none (bytes b)).map (·.getD '\ufffd'))

end ClientGen.Utf8
