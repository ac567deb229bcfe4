import ClientGen.Json.Reader
import ClientGen.Yaml.Character

/-
  ClientGen.Yaml.Token.Quoted — quoted scalars, read from behind the opening quote.

  Between single quotes a quote is written twice. Between double quotes a backslash starts an
  escape; in front of a line break it joins the lines. Lines are folded in both, and no line
  inside may look like the start or the end of a document.
-/

namespace ClientGen.Yaml

def singleQuoted (p : Place) (gap : Gap) (out : List Char) : List Char → Option (Taken String)
  | [] => none
  | c :: rest =>
    if isBlank c || isBreak c then singleQuoted (p.after c) (gap.add c) out rest
    else if isDocumentMarker p (c :: rest) then none
    else if c = '\'' then
      match rest with
      | '\'' :: rest => singleQuoted (p.skip 2) .none ('\'' :: (gap.folded ++ out)) rest
      | _ => some ⟨String.ofList (gap.folded ++ out).reverse, p.skip 1, rest⟩
    else singleQuoted (p.after c) .none (c :: (gap.folded ++ out)) rest

/-- The character of an escape of one letter. -/
def letterEscape? (c : Char) : Option Char :=
  [('0', '\x00'), ('a', '\x07'), ('b', '\x08'), ('t', '\t'), ('\t', '\t'), ('n', '\n'), ('v', '\x0b'), ('f', '\x0c'),
    ('r', '\r'), ('e', '\x1b'), (' ', ' '), ('"', '"'), ('/', '/'), ('\\', '\\'), ('N', '\u0085'), ('_', '\u00a0'),
    ('L', '\u2028'), ('P', '\u2029')].lookup c

/-- How many hex digits follow the letter. -/
def hexEscape? (c : Char) : Option Nat := [('x', 2), ('u', 4), ('U', 8)].lookup c

/-- The character that hex digits stand for; surrogates stand for none. -/
def hexChar? (digits : List Char) : Option Char := do
  let n ← digits.foldlM (fun n c => return n * 16 + (← Json.hexValue? c)) 0
  if n.isValidChar then return Char.ofNat n else failure

def doubleQuoted (p : Place) (gap : Gap) (out : List Char) : List Char → Option (Taken String)
  | [] => none
  | c :: rest =>
    if isBlank c || isBreak c then doubleQuoted (p.after c) (gap.add c) out rest
    else if isDocumentMarker p (c :: rest) then none
    else if c = '"' then some ⟨String.ofList (gap.folded ++ out).reverse, p.skip 1, rest⟩
    else if c = '\\' then
      match rest with
      | [] => none
      | e :: rest =>
        if isBreak e then doubleQuoted (p.after e) (.breaks none []) (gap.folded ++ out) rest
        else
          match letterEscape? e with
          | some d => doubleQuoted (p.skip 2) .none (d :: (gap.folded ++ out)) rest
          | none =>
            match hexEscape? e with
            | none => none
            | some n =>
              if rest.length < n then none
              else
                match hexChar? (rest.take n) with
                | none => none
                | some d => doubleQuoted (p.skip (n + 2)) .none (d :: (gap.folded ++ out)) (rest.drop n)
    else doubleQuoted (p.after c) .none (c :: (gap.folded ++ out)) rest
termination_by cs => cs.length
decreasing_by all_goals simp only [List.length_cons, List.length_drop]; omega

end ClientGen.Yaml
