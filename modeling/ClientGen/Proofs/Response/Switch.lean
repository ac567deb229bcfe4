import ClientGen.Go.Method
import ClientGen.Proofs.Response.Key

/-
  ClientGen.Proofs.Response.Switch — the cases of a method, read as the switch they are written as.

  A switch without a tag takes the first case whose condition holds, and `default` when there is
  none, wherever `default` stands. Labels are texts, so conditions are read from them:
  - `condition_caseLabel`: the label of a status reads as the codes that the status covers.
  - `taken_cases`: so a switch over the cases of a method takes the first response, short of the
    default, that covers the code (`firstCovering`, `covers_of_taken`).
-/

namespace ClientGen

namespace Go

/-! ## Labels -/

/-- The parts of a text between its blanks. -/
def words : List Char → List (List Char)
  | [] => [[]]
  | c :: rest =>
    if c = ' ' then [] :: words rest
    else match words rest with
      | [] => [[c]]
      | w :: more => (c :: w) :: more

theorem words_of_notMem {w : List Char} (h : ' ' ∉ w) : words w = [w] := by
  induction w with
  | nil => rfl
  | cons c rest ih =>
    simp only [List.mem_cons, not_or] at h
    rw [words, if_neg (Ne.symm h.1), ih h.2]

theorem words_append {w : List Char} (h : ' ' ∉ w) (rest : List Char) :
    words (w ++ ' ' :: rest) = w :: words rest := by
  induction w with
  | nil => rfl
  | cons c w ih =>
    simp only [List.mem_cons, not_or] at h
    rw [List.cons_append, words, if_neg (Ne.symm h.1), ih h.2]

/-- A condition on the status code of a response. -/
inductive Condition where
  | equal (n : Nat)
  | between (low high : Nat)
  deriving DecidableEq, Repr

def Condition.holds : Condition → Nat → Bool
  | .equal n, s => s == n
  | .between low high, s => low ≤ s && s < high

/-- The number before the colon that ends a label. -/
def numberBeforeColon? (w : List Char) : Option Nat :=
  match w.reverse with
  | ':' :: rest => Status.decimal? rest.reverse
  | _ => none

/-- The condition of a case; `default` has none. -/
def condition? (label : String) : Option Condition :=
  match words label.toList with
  | [w, subject, compare, n] =>
    if w = "case".toList ∧ subject = "resp.StatusCode".toList ∧ compare = "==".toList then
      (numberBeforeColon? n).map .equal
    else none
  | [w, subject, compare, low, both, subject', compare', high] =>
    if w = "case".toList ∧ subject = "resp.StatusCode".toList ∧ compare = ">=".toList ∧ both = "&&".toList ∧
        subject' = "resp.StatusCode".toList ∧ compare' = "<".toList then do
      return .between (← Status.decimal? low) (← numberBeforeColon? high)
    else none
  | _ => none

theorem blank_notMem_toDigits (n : Nat) : ' ' ∉ Nat.toDigits 10 n := by
  intro h
  have := Nat.isDigit_of_mem_toDigits (by decide) (by decide) h
  revert this
  decide

theorem numberBeforeColon_toDigits (n : Nat) : numberBeforeColon? (Nat.toDigits 10 n ++ [':']) = some n := by
  rw [numberBeforeColon?, List.reverse_append, List.reverse_singleton, List.singleton_append]
  simp only [List.reverse_reverse]
  exact Status.decimal?_toDigits n

theorem toList_colon : ":".toList = [':'] := by simp

theorem caseLabel_code (n : Nat) : caseLabel (.code n) = "case resp.StatusCode == " ++ toString n ++ ":" := rfl

theorem caseLabel_range (n : Nat) :
    caseLabel (.range n) =
      "case resp.StatusCode >= " ++ toString n ++ " && resp.StatusCode < " ++ toString (n + 100) ++ ":" := rfl

theorem words_code (n : Nat) :
    words (caseLabel (.code n)).toList =
      ["case".toList, "resp.StatusCode".toList, "==".toList, Nat.toDigits 10 n ++ [':']] := by
  have hstart : "case resp.StatusCode == ".toList =
      "case".toList ++ ' ' :: ("resp.StatusCode".toList ++ ' ' :: ("==".toList ++ [' '])) := by simp
  have hend : ' ' ∉ Nat.toDigits 10 n ++ [':'] := by simpa using blank_notMem_toDigits n
  rw [caseLabel_code, String.toList_append, String.toList_append, hstart, Nat.toString_eq_repr, Nat.toList_repr,
    toList_colon]
  simp only [List.append_assoc, List.cons_append, List.nil_append]
  rw [words_append (by simp), words_append (by simp), words_append (by simp), words_of_notMem hend]

theorem words_range (n : Nat) :
    words (caseLabel (.range n)).toList =
      ["case".toList, "resp.StatusCode".toList, ">=".toList, Nat.toDigits 10 n, "&&".toList, "resp.StatusCode".toList,
        "<".toList, Nat.toDigits 10 (n + 100) ++ [':']] := by
  have hstart : "case resp.StatusCode >= ".toList =
      "case".toList ++ ' ' :: ("resp.StatusCode".toList ++ ' ' :: (">=".toList ++ [' '])) := by simp
  have hmiddle : " && resp.StatusCode < ".toList =
      ' ' :: ("&&".toList ++ ' ' :: ("resp.StatusCode".toList ++ ' ' :: ("<".toList ++ [' ']))) := by simp
  have hend : ' ' ∉ Nat.toDigits 10 (n + 100) ++ [':'] := by simpa using blank_notMem_toDigits (n + 100)
  simp only [caseLabel_range, String.toList_append]
  rw [hstart, hmiddle, Nat.toString_eq_repr, Nat.toString_eq_repr, Nat.toList_repr, Nat.toList_repr, toList_colon]
  simp only [List.append_assoc, List.cons_append, List.nil_append]
  rw [words_append (by simp), words_append (by simp), words_append (by simp),
    words_append (blank_notMem_toDigits n), words_append (by simp), words_append (by simp), words_append (by simp),
    words_of_notMem hend]

/-- What a label says is what its status covers. -/
theorem condition_caseLabel (st : Status) (s : Nat) : (condition? (caseLabel st)).any (·.holds s) = st.names s := by
  cases st with
  | code n =>
    rw [condition?, words_code]
    simp only [and_self, if_true, numberBeforeColon_toDigits]
    rfl
  | range n =>
    rw [condition?, words_range]
    simp only [and_self, if_true, numberBeforeColon_toDigits, Status.decimal?_toDigits]
    rfl
  | default => rfl

/-! ## Switches -/

/-- The number of the case that is taken. -/
def taken (cases : List Case) (s : Nat) : Option Nat :=
  (cases.findIdx? fun c => (condition? c.label).any (·.holds s)).or (cases.findIdx? (·.label = "default:"))

/-- The number of the first response that names the code, or else of the default. -/
def firstCovering (responses : List Response) (s : Nat) : Option Nat :=
  (responses.findIdx? (·.status.names s)).or (responses.findIdx? (·.status = .default))

theorem caseLabel_eq_default {st : Status} : caseLabel st = "default:" ↔ st = .default := by
  constructor
  · intro h
    have hwords : (words (caseLabel st).toList).length = 1 := by rw [h]; decide +kernel
    cases st with
    | default => rfl
    | code n => rw [words_code] at hwords; cases hwords
    | range n => rw [words_range] at hwords; cases hwords
  · rintro rfl
    rfl

theorem labels_cases (model : ApiModel) (m : Method) (zero : String) :
    (cases model m zero).map (·.label) = m.responses.map (caseLabel ·.status) := by
  have hfirst : (cases model m zero).map (·.label) = (m.responses.zipIdx.map (·.1)).map (caseLabel ·.status) := by
    rw [cases, List.map_map, List.map_map]
    exact List.map_congr_left fun e _ => rfl
  rw [hfirst, List.zipIdx_map_fst]

theorem taken_cases (model : ApiModel) (m : Method) (zero : String) (s : Nat) :
    taken (cases model m zero) s = firstCovering m.responses s := by
  have hfind (p : String → Bool) :
      (cases model m zero).findIdx? (fun c => p c.label) = m.responses.findIdx? fun r => p (caseLabel r.status) := by
    rw [← Function.comp_def p, ← List.findIdx?_map, labels_cases, List.findIdx?_map]
    rfl
  rw [taken, firstCovering, hfind fun label => (condition? label).any (·.holds s),
    hfind fun label => label = "default:"]
  simp only [condition_caseLabel, caseLabel_eq_default]

/-- The response that is taken covers the code, and of those before it only a default does. -/
theorem covers_of_taken {model : ApiModel} {m : Method} {zero : String} {s i : Nat}
    (h : taken (cases model m zero) s = some i) :
    ∃ r, m.responses[i]? = some r ∧ r.status.Covers s ∧
      ∀ j < i, ∀ r', m.responses[j]? = some r' → r'.status.Covers s → r'.status = .default := by
  have hearlier {r : Response} (hnames : ¬ r.status.names s = true) (hcovers : r.status.Covers s) :
      r.status = .default := by
    by_contra hother
    exact hnames (Status.names_iff.mpr ⟨hother, hcovers⟩)
  rw [taken_cases, firstCovering, Option.or_eq_some_iff] at h
  rcases h with hnamed | ⟨hnone, hdefault⟩
  · obtain ⟨hlt, hnames, hbefore⟩ := List.findIdx?_eq_some_iff_getElem.mp hnamed
    refine ⟨_, List.getElem?_eq_getElem hlt, (Status.names_iff.mp hnames).2, ?_⟩
    intro j hj r' hr' hcovers
    obtain ⟨_, rfl⟩ := List.getElem?_eq_some_iff.mp hr'
    exact hearlier (hbefore j hj) hcovers
  · obtain ⟨hlt, hstatus, -⟩ := List.findIdx?_eq_some_iff_getElem.mp hdefault
    refine ⟨_, List.getElem?_eq_getElem hlt, ?_, ?_⟩
    · rw [of_decide_eq_true hstatus]
      trivial
    · intro j _ r' hr' hcovers
      refine hearlier ?_ hcovers
      rw [List.findIdx?_eq_none_iff.mp hnone r' (List.mem_of_getElem? hr')]
      decide

end Go

end ClientGen
