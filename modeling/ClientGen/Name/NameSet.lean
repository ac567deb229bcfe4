/-
  ClientGen.Name.NameSet — handing out names so that none is given twice.

  `claim` gives the name asked for, or the name followed by the least number from 2 on that
  makes it new. Among `n` names taken, one of `n + 1` numbers is free, so the search over that
  many numbers always finds one.
-/

namespace ClientGen

structure NameSet where
  taken : List String
  deriving Repr

namespace NameSet

def empty : NameSet := ⟨[]⟩

def numbered (name : String) (n : Nat) : String := name ++ toString n

/-- The first free numbered form from `n` on, looking at `tries` numbers. -/
def firstFree (taken : List String) (name : String) (n : Nat) : Nat → String
  | 0 => numbered name n
  | tries + 1 => if numbered name n ∈ taken then firstFree taken name (n + 1) tries else numbered name n

def pick (s : NameSet) (name : String) : String :=
  if name ∈ s.taken then firstFree s.taken name 2 s.taken.length else name

def claim (s : NameSet) (name : String) : String × NameSet :=
  let chosen := s.pick name
  (chosen, ⟨chosen :: s.taken⟩)

/-- Claim names in order. -/
def claimAll (s : NameSet) : List String → List String × NameSet
  | [] => ([], s)
  | name :: rest =>
    let (chosen, s) := s.claim name
    let (more, s) := s.claimAll rest
    (chosen :: more, s)

end NameSet

/-- The first element of every key, in order. -/
def firstByKeyFrom [BEq κ] (key : α → κ) (seen : List κ) : List α → List α
  | [] => []
  | a :: rest =>
    if seen.contains (key a) then firstByKeyFrom key seen rest
    else a :: firstByKeyFrom key (key a :: seen) rest

def firstByKey [BEq κ] (key : α → κ) (items : List α) : List α := firstByKeyFrom key [] items

end ClientGen
