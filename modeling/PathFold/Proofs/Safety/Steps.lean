import PathFold.Json.Cursor
import PathFold.Json.Gap

/-! Reading with every step checked. A checked reading goes step by step and gives `none` where a
step moves past the end of the input, takes bytes from out of range or takes more from a number than
it has, and where a loop does not move on. Within the input it gives what reading gives. -/

namespace PathFold.Json

/-- That a cursor has not been moved past the end of its input. -/
def Cursor.InRange (c : Cursor) : Prop := c.pos ≤ c.input.length

namespace Cursor.InRange

variable {c : Cursor} {n : Nat}

theorem advance (h : c.InRange) (le : n ≤ c.rest.length) : (c.advance n).InRange := by
  have := c.length_rest
  simp only [InRange, advance_input, advance_pos] at h ⊢
  omega

theorem remaining?_eq (h : c.InRange) : c.remaining? = some c.rest := if_pos h

theorem slice?_eq (h : (c.advance n).InRange) :
    (c.advance n).slice? c.pos (c.pos + n) = some (c.rest.take n) := by
  rw [slice?, if_pos ⟨Nat.le_add_right _ _, h⟩, Nat.add_sub_cancel_left, advance_input, ← c.rest_eq]

end Cursor.InRange

section

variable {c : Cursor} {b : UInt8} {rest : Bytes}

theorem Cursor.peek_of_rest (ahead : c.rest = b :: rest) : c.peek = some b := by
  rw [peek, ahead, List.head?_cons]

theorem Cursor.length_rest_pos (ahead : c.rest = b :: rest) : 0 < c.rest.length := by
  rw [ahead]
  exact Nat.succ_pos _

end

namespace Checked

/-- A difference that is not below zero. -/
def sub (a b : Nat) : Option Nat := if b ≤ a then some (a - b) else none

theorem sub_eq {a b : Nat} (h : b ≤ a) : sub a b = some (a - b) := if_pos h

/-- A cursor that is not past the end. -/
def within (c : Cursor) : Option Cursor := if c.pos ≤ c.input.length then some c else none

def advance (c : Cursor) (n : Nat) : Option Cursor := within (c.advance n)

theorem within_eq {c : Cursor} (h : c.InRange) : within c = some c := if_pos h

theorem advance_eq {c : Cursor} {n : Nat} (h : c.InRange) (le : n ≤ c.rest.length) :
    advance c n = some (c.advance n) :=
  if_pos (h.advance le)

example : advance (.start [0x20]) 2 = none := rfl

/-- What one turn of a loop comes to. -/
inductive Turn (σ α : Type) where
  | again (state : σ)
  | done (answer : α)

section Loop

variable {σ α : Type} (left : σ → Nat) (turn : σ → Option (Turn σ α))

/-- Turns of a loop up to the last. A turn that is not the last has to leave less to read. -/
def loop (state : σ) : Option α :=
  match turn state with
  | none => none
  | some (.done answer) => some answer
  | some (.again next) => if left next < left state then loop next else none
termination_by left state

variable {left turn}

theorem loop_of_done {state : σ} {answer : α} (h : turn state = some (.done answer)) :
    loop left turn state = some answer := by
  rw [loop, h]

theorem loop_of_again {state next : σ} (h : turn state = some (.again next))
    (closer : left next < left state) : loop left turn state = loop left turn next := by
  rw [loop, h]
  exact if_pos closer

end Loop

/-- Past the byte at the cursor, if it is one of a class. -/
def skipOne (p : UInt8 → Bool) (c : Cursor) : Option (Turn Cursor Cursor) :=
  if c.pos < c.input.length then do
    let b ← c.input[c.pos]?
    if p b then
      let c ← advance c 1
      some (.again c)
    else some (.done c)
  else some (.done c)

/-- Past the bytes of a class, one by one. -/
def skipWhile (p : UInt8 → Bool) (c : Cursor) : Option Cursor :=
  loop (·.rest.length) (skipOne p) c

theorem skipWhile_eq (p : UInt8 → Bool) {c : Cursor} (h : c.InRange) :
    skipWhile p c = some (c.advance (c.rest.takeWhile p).length) := by
  have length := c.length_rest
  induction ahead : c.rest generalizing c with
  | nil =>
    rw [ahead, List.length_nil] at length
    exact loop_of_done (if_neg (by omega))
  | cons b tail ih =>
    have here : c.input[c.pos]? = some b := by
      simpa [Cursor.peekAt, ahead] using (c.peekAt_eq 0).symm
    have more := Cursor.length_rest_pos ahead
    have rest : (c.advance 1).rest = tail := by
      rw [Cursor.advance_rest, ahead]
      rfl
    have turn : skipOne p c =
        if p b then some (.again (c.advance 1)) else some (.done c) := by
      rw [skipOne, if_pos (by omega), here, advance_eq h more]
      rfl
    by_cases hb : p b
    · rw [if_pos hb] at turn
      have closer : (c.advance 1).rest.length < c.rest.length := by
        rw [rest, ahead]
        exact Nat.lt_succ_self _
      have further := ih (h.advance more) (Cursor.length_rest _) rest
      rw [skipWhile, loop_of_again turn closer]
      refine further.trans ?_
      simp [hb, Nat.add_comm]
    · rw [if_neg hb] at turn
      rw [skipWhile, loop_of_done turn]
      simp [hb]

/-- The digits at the cursor, counted and passed. -/
def skipDigits (c : Cursor) : Option (Nat × Cursor) := do
  let d ← skipWhile isDigit c
  let n ← sub d.pos c.pos
  some (n, d)

theorem skipDigits_eq {c : Cursor} (h : c.InRange) : skipDigits c = some c.skipDigits := by
  rw [skipDigits, skipWhile_eq _ h]
  simp [sub, Cursor.skipDigits, Extent.digits]

/-- Past the comment that begins at the cursor, if one does, and whether the comment is closed. -/
def skipComment (c : Cursor) : Option (Option (Bool × Cursor)) :=
  if c.peek = some 0x2F then
    if c.peekAt 1 = some 0x2F then do
      let c ← advance c 2
      let c ← within (← c.skipLine?)
      some (some (true, c))
    else if c.peekAt 1 = some 0x2A then do
      let c ← advance c 2
      let (closed, c) ← c.skipBlock?
      let c ← within c
      some (some (closed, c))
    else some none
  else some none

/-- Past the blanks at the cursor and the comment behind them, if there is one. -/
def skipBlanksAndComment (comments : Bool) (c : Cursor) :
    Option (Turn Cursor (Bool × Cursor)) := do
  let c ← skipWhile isBlank c
  if comments then
    match ← skipComment c with
    | none => some (.done (true, c))
    | some (false, c) => some (.done (false, c))
    | some (true, c) => some (.again c)
  else some (.done (true, c))

/-- Past the gap at the cursor, and whether the gap is closed. -/
def skipGap (comments : Bool) (c : Cursor) : Option (Bool × Cursor) :=
  loop (·.rest.length) (skipBlanksAndComment comments) c

theorem rest_of_opened {c : Cursor} {a b : UInt8} {body : Bytes} (ahead : c.rest = a :: b :: body)
    (n : Nat) : (c.advance (2 + n)).rest = body.drop n := by
  rw [Cursor.advance_rest, ahead, Nat.add_comm]
  rfl

theorem closer_of_opened {c : Cursor} {k : Nat} {a b : UInt8} {body : Bytes}
    (ahead : (c.advance k).rest = a :: b :: body) (n : Nat) :
    ((c.advance k).advance (2 + n)).rest.length < c.rest.length := by
  have length := congrArg List.length ahead
  simp only [Cursor.advance_rest, List.length_drop, List.length_cons] at length ⊢
  omega

/-- Past the two bytes that open a comment. -/
theorem opened {c : Cursor} (h : c.InRange) {a b : UInt8} {body : Bytes}
    (ahead : c.rest = a :: b :: body) :
    advance c 2 = some (c.advance 2) ∧ (c.advance 2).InRange ∧ (c.advance 2).rest = body := by
  have two : 2 ≤ c.rest.length := by
    rw [ahead]
    exact Nat.le_add_left _ _
  exact ⟨advance_eq h two, h.advance two, rest_of_opened ahead 0⟩

section Comments

variable {c : Cursor} {body : Bytes}

theorem skipComment_line (h : c.InRange) (ahead : c.rest = 0x2F :: 0x2F :: body) :
    skipComment c = some (some (true, c.advance (2 + Extent.line body))) ∧
      (c.advance (2 + Extent.line body)).InRange := by
  obtain ⟨moved, inside, rest⟩ := opened h ahead
  have past : ((c.advance 2).advance (Extent.line body)).InRange := by
    refine inside.advance ?_
    rw [rest]
    exact Extent.line_le body
  rw [Cursor.advance_advance] at past
  refine ⟨?_, past⟩
  simp [skipComment, Cursor.peek, Cursor.peekAt, ahead, moved, Cursor.skipLine?,
    inside.remaining?_eq, within_eq past]

theorem skipComment_block (h : c.InRange) {n : Nat} (ahead : c.rest = 0x2F :: 0x2A :: body)
    (closes : Extent.block? body = some n) :
    skipComment c = some (some (true, c.advance (2 + n))) ∧ (c.advance (2 + n)).InRange := by
  obtain ⟨moved, inside, rest⟩ := opened h ahead
  have past : ((c.advance 2).advance n).InRange := by
    refine inside.advance ?_
    rw [rest]
    exact Extent.block?_le closes
  rw [Cursor.advance_advance] at past
  refine ⟨?_, past⟩
  simp [skipComment, Cursor.peek, Cursor.peekAt, ahead, moved, Cursor.skipBlock?,
    inside.remaining?_eq, closes, within_eq past]

theorem skipComment_unclosed (h : c.InRange) (ahead : c.rest = 0x2F :: 0x2A :: body)
    (unclosed : Extent.block? body = none) :
    skipComment c = some (some (false, c.advance (2 + body.length))) := by
  obtain ⟨moved, inside, rest⟩ := opened h ahead
  have past : ((c.advance 2).advance body.length).InRange :=
    inside.advance (Nat.le_of_eq (congrArg List.length rest.symm))
  rw [Cursor.advance_advance] at past
  simp [skipComment, Cursor.peek, Cursor.peekAt, ahead, moved, Cursor.skipBlock?,
    inside.remaining?_eq, unclosed, within_eq past]

theorem skipComment_none
    (h : ∀ b body, c.rest = 0x2F :: b :: body → b ≠ 0x2F ∧ b ≠ 0x2A) :
    skipComment c = some none := by
  unfold skipComment
  cases front : c.rest with
  | nil => simp [Cursor.peek, front]
  | cons a tail =>
    cases tail with
    | nil => simp [Cursor.peek, Cursor.peekAt, front]
    | cons b body =>
      by_cases slash : a = 0x2F
      · have other := h b body (by rw [front, slash])
        simp [Cursor.peek, Cursor.peekAt, front, other.1, other.2]
      · simp [Cursor.peek, front, slash]

end Comments

/-- Past the blanks a gap goes on with a comment or ends. -/
theorem skipBlanksAndComment_of_blanks {c d : Cursor} (blanks : skipWhile isBlank c = some d) :
    skipBlanksAndComment true c = (skipComment d).bind fun
      | none => some (.done (true, d))
      | some (false, e) => some (.done (false, e))
      | some (true, e) => some (.again e) := by
  rw [skipBlanksAndComment, blanks]
  rfl

theorem skipBlanks_eq {c : Cursor} {bytes : Bytes} (h : c.InRange) (front : c.rest = bytes) :
    skipWhile isBlank c = some (c.advance (Extent.blanks bytes)) ∧
      (c.advance (Extent.blanks bytes)).InRange ∧
      (c.advance (Extent.blanks bytes)).rest = bytes.drop (Extent.blanks bytes) := by
  subst front
  exact ⟨skipWhile_eq isBlank h, h.advance (Extent.blanks_le _), rfl⟩

/-- Behind a comment that is closed the gap goes on. -/
theorem skipGap_of_comment {c : Cursor} {n m : Nat} {a b : UInt8} {body : Bytes}
    (blanks : skipWhile isBlank c = some (c.advance n)) (ahead : (c.advance n).rest = a :: b :: body)
    (comment : skipComment (c.advance n) = some (some (true, (c.advance n).advance (2 + m)))) :
    skipGap true c = skipGap true ((c.advance n).advance (2 + m)) := by
  have turn : skipBlanksAndComment true c = some (.again ((c.advance n).advance (2 + m))) := by
    rw [skipBlanksAndComment_of_blanks blanks, comment]
    rfl
  exact loop_of_again turn (closer_of_opened ahead m)

theorem skipGap_of_rest (comments : Bool) (bytes : Bytes) : ∀ c : Cursor, c.InRange →
    c.rest = bytes → skipGap comments c = some ((Gap.ofFront comments bytes).closed,
      c.advance (Gap.ofFront comments bytes).length) := by
  -- The induction is on how the gap is read, one comment after the other.
  fun_induction Gap.ofFront comments bytes with
  | case1 bytes n on a b body front marks m ih =>
    rintro c h rfl
    subst on
    obtain ⟨rfl, rfl⟩ := marks
    obtain ⟨blanks, past, ahead⟩ := skipBlanks_eq h rfl
    rw [front] at ahead
    obtain ⟨comment, after⟩ := skipComment_line past ahead
    have tail := ih _ after (rest_of_opened ahead m)
    rw [← skipGap_of_comment blanks ahead comment] at tail
    simpa [Nat.add_assoc] using tail
  | case2 bytes n on a b body front _ marks m closes ih =>
    rintro c h rfl
    subst on
    obtain ⟨rfl, rfl⟩ := marks
    obtain ⟨blanks, past, ahead⟩ := skipBlanks_eq h rfl
    rw [front] at ahead
    obtain ⟨comment, after⟩ := skipComment_block past ahead closes
    have tail := ih _ after (rest_of_opened ahead m)
    rw [← skipGap_of_comment blanks ahead comment] at tail
    simpa [Nat.add_assoc] using tail
  | case3 bytes n on a b body front _ marks unclosed =>
    rintro c h rfl
    subst on
    obtain ⟨rfl, rfl⟩ := marks
    obtain ⟨blanks, past, ahead⟩ := skipBlanks_eq h rfl
    rw [front] at ahead
    have comment := skipComment_unclosed past ahead unclosed
    rw [Cursor.advance_advance, ← Nat.add_assoc] at comment
    refine loop_of_done ?_
    rw [skipBlanksAndComment_of_blanks blanks, comment]
    rfl
  | case4 bytes n on a b body front noLine noBlock =>
    rintro c h rfl
    subst on
    obtain ⟨blanks, -, ahead⟩ := skipBlanks_eq h rfl
    have comment : skipComment (c.advance n) = some none := by
      refine skipComment_none fun b' body' split => ?_
      rw [ahead, front] at split
      cases split
      exact ⟨fun e => noLine ⟨rfl, e⟩, fun e => noBlock ⟨rfl, e⟩⟩
    refine loop_of_done ?_
    rw [skipBlanksAndComment_of_blanks blanks, comment]
    rfl
  | case5 bytes n on short =>
    rintro c h rfl
    subst on
    obtain ⟨blanks, -, ahead⟩ := skipBlanks_eq h rfl
    have comment : skipComment (c.advance n) = some none :=
      skipComment_none fun _ _ split => (short _ _ _ (ahead.symm.trans split)).elim
    refine loop_of_done ?_
    rw [skipBlanksAndComment_of_blanks blanks, comment]
    rfl
  | case6 bytes n off =>
    rintro c h rfl
    obtain ⟨blanks, -⟩ := skipBlanks_eq h rfl
    refine loop_of_done ?_
    rw [skipBlanksAndComment, blanks, Option.bind_eq_bind, Option.bind_some, if_neg off]

theorem skipGap_eq (comments : Bool) {c : Cursor} (h : c.InRange) :
    skipGap comments c = some ((Gap.ofFront comments c.rest).closed,
      c.advance (Gap.ofFront comments c.rest).length) :=
  skipGap_of_rest comments c.rest c h rfl

end Checked

end PathFold.Json
