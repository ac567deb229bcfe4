/-
  ClientGen.Unicode.Span — sets of code points given by spans.

  A property of characters is a list of closed spans, or of spans with a stride (the
  Latin extensions alternate capital and small letters). Below U+0080 every property is
  decided by a plain test, so the tables start at U+0080.
-/

namespace ClientGen.Unicode

def inSpans (table : List (Nat × Nat)) (n : Nat) : Bool := table.any fun (lo, hi) => lo ≤ n && n ≤ hi

/-- Every `step`-th code point from `lo` to `hi`. -/
def inStrides (table : List (Nat × Nat × Nat)) (n : Nat) : Bool :=
  table.any fun (lo, hi, step) => lo ≤ n && n ≤ hi && (n - lo) % step == 0

theorem inSpans_iff {table : List (Nat × Nat)} {n : Nat} :
    inSpans table n = true ↔ ∃ s ∈ table, s.1 ≤ n ∧ n ≤ s.2 := by
  simp [inSpans]

end ClientGen.Unicode
