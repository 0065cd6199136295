/-! Sets of code points as lists of closed ranges. -/

namespace PathFold.Text

/-- Each entry is the first and the last code point of a range. -/
abbrev CodeRanges := List (Nat × Nat)

namespace CodeRanges

def has (ranges : CodeRanges) (n : Nat) : Bool := ranges.any fun r => r.1 ≤ n && n ≤ r.2

theorem not_has_of_lt {ranges : CodeRanges} {n : Nat} (low : Nat)
    (h : ranges.all (fun r => low ≤ r.1) = true) (below : n < low) : ranges.has n = false := by
  simp only [List.all_eq_true, decide_eq_true_eq] at h
  simp only [has, List.any_eq_false, Bool.and_eq_true, decide_eq_true_eq]
  exact fun r hr within => absurd (h r hr) (by omega)

/-- No range is empty, the lowest comes first, and a gap separates each from the next. -/
def apart : CodeRanges → Bool
  | [] => true
  | [r] => r.1 ≤ r.2
  | r :: s :: rest => r.1 ≤ r.2 && r.2 + 1 < s.1 && apart (s :: rest)

/-- The number of code points, for ranges that are apart. -/
def size : CodeRanges → Nat
  | [] => 0
  | r :: rest => r.2 + 1 - r.1 + size rest

end CodeRanges

end PathFold.Text
