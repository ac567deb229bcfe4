/-
  ClientGen.Name.Singular — the singular form of a name.

  Only the ending counts. `ies` becomes `y`; `sses`, `xes`, `ches`, `shes` and `zzes` lose `es`;
  `ss`, `us` and `is` stay; any other `s` is dropped. A stem is never empty.
-/

namespace ClientGen.Name

/-- The rules on the reversed name, in order of precedence. -/
def singularReversed : List Char → List Char
  | 's' :: 'e' :: 'i' :: c :: stem => 'y' :: c :: stem
  | 's' :: 'e' :: 's' :: 's' :: stem => 's' :: 's' :: stem
  | 's' :: 'e' :: 'x' :: stem => 'x' :: stem
  | 's' :: 'e' :: 'h' :: 'c' :: stem => 'h' :: 'c' :: stem
  | 's' :: 'e' :: 'h' :: 's' :: stem => 'h' :: 's' :: stem
  | 's' :: 'e' :: 'z' :: 'z' :: stem => 'z' :: 'z' :: stem
  | 's' :: 's' :: stem => 's' :: 's' :: stem
  | 's' :: 'u' :: stem => 's' :: 'u' :: stem
  | 's' :: 'i' :: stem => 's' :: 'i' :: stem
  | 's' :: c :: stem => c :: stem
  | name => name

def singularChars (cs : List Char) : List Char := (singularReversed cs.reverse).reverse

def singular (s : String) : String := String.ofList (singularChars s.toList)

/-! ## Singular names stay -/

theorem singularReversed_of_ne {c : Char} (hc : c ≠ 's') (stem : List Char) :
    singularReversed (c :: stem) = c :: stem := by
  have hhead : ∀ {rest}, c :: stem = 's' :: rest → False := fun h => hc (List.cons.inj h).1
  -- no rule applies: each asks for a final `s`
  apply singularReversed.eq_11
  all_goals
    intros
    exact hhead ‹_›

theorem singularReversed_singularReversed (cs : List Char) :
    singularReversed (singularReversed cs) = singularReversed cs := by
  fun_cases singularReversed cs with
  | case10 c stem _ _ _ _ _ _ hs _ _ => exact singularReversed_of_ne hs stem
  | case11 => apply singularReversed.eq_11 <;> assumption
  | _ => rfl

theorem singular_singular (s : String) : singular (singular s) = singular s := by
  simp only [singular, singularChars, String.toList_ofList, List.reverse_reverse, singularReversed_singularReversed]

end ClientGen.Name
