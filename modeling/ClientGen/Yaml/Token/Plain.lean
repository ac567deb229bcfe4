import ClientGen.Yaml.Character

/-
  ClientGen.Yaml.Token.Plain — scalars without quotes.

  A plain scalar runs over lines as long as they are indented to the margin. It ends at a colon
  with a gap behind, at a number sign with a gap in front, at a document marker, and inside flow
  collections at their indicators.
-/

namespace ClientGen.Yaml

/-- Whether a plain scalar can start here. -/
def startsPlain (flow : Bool) : List Char → Bool
  | [] => false
  | c :: rest =>
    if c = '-' then !(rest.head?.any isBlank)
    else if c = '?' || c = ':' then !flow && !atGap rest
    else !(isBlank c || isBreak c || ",[]\x7b\x7d#&*!|>'\"%@\x60".toList.contains c)

def isFlowIndicator (c : Char) : Bool := c == ',' || c == '[' || c == ']' || c == '\x7b' || c == '\x7d'

/-- Where a plain scalar ends in front of `c`, given that it goes on up to there. -/
def endsPlain (flow : Bool) (c : Char) (rest : List Char) : Bool :=
  (c == ':' && atGap rest) || (flow && isFlowIndicator c)

/-- The text, and whether a line break was taken behind it. -/
def plain (flow : Bool) (margin : Nat) (p : Place) (gap : Gap) (out : List Char) :
    List Char → Option (Taken (String × Bool))
  | [] => some ⟨(String.ofList out.reverse, gap.isBroken), p, []⟩
  | c :: rest =>
    let done : Taken (String × Bool) := ⟨(String.ofList out.reverse, gap.isBroken), p, c :: rest⟩
    if isBlank c || isBreak c then
      if c == '\t' && gap.isBroken && p.column < margin then none
      else plain flow margin (p.after c) (gap.add c) out rest
    else if !gap.isNone && (c == '#' || (!flow && p.column < margin)) then some done
    else if isDocumentMarker p (c :: rest) then some done
    else if flow && c == ':' && rest.head?.any (fun d => d == '?' || isFlowIndicator d) then none
    else if endsPlain flow c rest then some done
    else plain flow margin (p.after c) .none (c :: (gap.folded ++ out)) rest

end ClientGen.Yaml
