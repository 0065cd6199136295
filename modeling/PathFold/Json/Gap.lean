import PathFold.Json.Extent

/-! Gaps: the insignificant bytes between two lexemes. These are blanks and, where comments are
allowed, line comments and block comments. A gap that runs into an unclosed block comment takes
everything there is and is not closed. -/

namespace PathFold.Json

structure Gap where
  length : Nat
  closed : Bool
  deriving DecidableEq, Repr

namespace Gap

def after (n : Nat) (gap : Gap) : Gap := ⟨n + gap.length, gap.closed⟩

@[simp] theorem after_length (n : Nat) (gap : Gap) : (gap.after n).length = n + gap.length := rfl

@[simp] theorem after_closed (n : Nat) (gap : Gap) : (gap.after n).closed = gap.closed := rfl

/-- The gap at the front. A slash that starts no comment is left for the grammar to refuse. -/
def ofFront (comments : Bool) (bytes : Bytes) : Gap :=
  let n := Extent.blanks bytes
  if comments then
    match _front : bytes.drop n with
    | a :: b :: body =>
      if a = 0x2F ∧ b = 0x2F then
        let m := Extent.line body
        (ofFront comments (body.drop m)).after (n + 2 + m)
      else if a = 0x2F ∧ b = 0x2A then
        match Extent.block? body with
        | some m => (ofFront comments (body.drop m)).after (n + 2 + m)
        | none => ⟨n + 2 + body.length, false⟩
      else ⟨n, true⟩
    | _ => ⟨n, true⟩
  else ⟨n, true⟩
termination_by bytes.length
decreasing_by
  all_goals
    have := congrArg List.length _front
    simp only [List.length_drop, List.length_cons] at this ⊢
    omega

theorem ofFront_length_le (comments : Bool) (bytes : Bytes) :
    (ofFront comments bytes).length ≤ bytes.length := by
  fun_induction ofFront comments bytes with
  | case1 bytes n _ a b body front hab m ih =>
    have hm := Extent.line_le body
    have := congrArg List.length front
    simp only [List.length_drop, List.length_cons, after_length] at this ih ⊢
    omega
  | case2 bytes n _ a b body front _ hab m hm ih =>
    have hm := Extent.block?_le hm
    have := congrArg List.length front
    simp only [List.length_drop, List.length_cons, after_length] at this ih ⊢
    omega
  | case3 bytes n _ a b body front =>
    have := congrArg List.length front
    simp only [List.length_drop, List.length_cons] at this ⊢
    omega
  | case4 bytes n => exact Extent.blanks_le bytes
  | case5 bytes n => exact Extent.blanks_le bytes
  | case6 bytes n => exact Extent.blanks_le bytes

example : ofFront true (Bytes.ofText " /**/ //x") = ⟨9, true⟩ := by cbv
example : ofFront true (Bytes.ofText " /*/") = ⟨4, false⟩ := by cbv
example : ofFront false (Bytes.ofText " /**/") = ⟨1, true⟩ := by cbv

end Gap

end PathFold.Json
