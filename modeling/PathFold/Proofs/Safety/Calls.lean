import PathFold.Json.Tokenizer.Run
import PathFold.Proofs.Layout.Faults
import PathFold.Proofs.Layout.Run
import PathFold.Proofs.Safety.Tokens

/-! Calls of the tokenizer with every step checked. Whatever calls came before, a call stays within
the input and within 64 open containers, and every step of it is one that may be taken. -/

namespace PathFold.Json

namespace Tokenizer

variable {t u : Tokenizer}

theorem depth_readLexeme_le (h : t.depth ≤ 64) : t.readLexeme.2.depth ≤ 64 := by
  rw [← length_stage]
  cases answer : tokenOf t.readLexeme.1 with
  | none =>
    rw [stage_of_readLexeme answer, length_stage]
    exact h
  | some token =>
    obtain ⟨written, took⟩ := took_of_readLexeme (step_of_tokenOf answer)
    have depth : t.readLexeme.2.stage.kinds.length = token.kind.depthAfter t.depth := by
      rw [took.writes.depth, length_stage]
      rfl
    rw [depth]
    cases kind : token.kind with
    | opening container => exact took.room container kind
    | closing => exact Nat.le_trans (Nat.sub_le _ _) h
    | propertyName | string | number | boolean | null => exact h

namespace InRange

theorem start (o : Options) (input : Bytes) : (Tokenizer.start o input).InRange :=
  ⟨Nat.zero_le _, Nat.zero_le _⟩

theorem advance (h : t.InRange) {n : Nat} (le : n ≤ t.left) : (t.advance n).InRange :=
  ⟨h.cursor.advance le, h.depth⟩

theorem passGap (h : t.InRange) : t.passGap.2.InRange := h.advance (Gap.ofFront_length_le _ _)

theorem passSeparator? (h : t.InRange) (passes : t.passSeparator? = some u) : u.InRange := by
  obtain ⟨more, cursor, -⟩ := passSeparator?_eq_some passes
  refine ⟨?_, ?_⟩
  · rw [cursor]
    exact h.cursor.advance more
  · rw [Tokenizer.depth, nesting_of_passSeparator? passes]
    exact h.depth

/-- A call leaves the tokenizer in its input, with no more than 64 containers open. -/
theorem next (h : t.InRange) : t.next.2.InRange := by
  refine ⟨?_, ?_⟩
  · have le := position_next_le h.cursor
    rwa [← input_next t] at le
  · rcases t.next_cases with ⟨_, _, ready, -, came, call⟩ | ⟨ready, came, call⟩
    · rw [call]
      refine depth_readLexeme_le ?_
      rw [Tokenizer.depth, came.nesting]
      exact h.depth
    · rw [call]
      change ready.nesting.depth ≤ 64
      rw [came.nesting]
      exact h.depth

theorem after (h : t.InRange) (n : Nat) : (t.after n).InRange := by
  induction n with
  | zero => exact h
  | succ n ih => exact ih.next

end InRange

end Tokenizer

namespace Checked

open Tokenizer (Answer)

variable {t u : Tokenizer}

/-- Past the separator at the cursor, if one stands there and is asked for. -/
def passSeparator (t : Tokenizer) : Option (Option Tokenizer) :=
  match t.expect with
  | .colon =>
    if t.cursor.peek = some 0x3A then do
      let c ← advance t.cursor 1
      some (some { t with expect := .value, cursor := c })
    else some none
  | .commaOrEnd =>
    if t.cursor.peek = some 0x2C then do
      let c ← advance t.cursor 1
      let object ← inObject t.nesting
      let expect : Expect := match object, t.options.trailingCommas with
        | true, true => .keyOrEnd
        | true, false => .key
        | false, true => .valueOrEnd
        | false, false => .value
      some (some { t with expect := expect, cursor := c })
    else some none
  | _ => some none

theorem afterComma_eq (t : Tokenizer) : t.afterComma =
    match decide (t.nesting.innermost? = some .object), t.options.trailingCommas with
    | true, true => .keyOrEnd
    | true, false => .key
    | false, true => .valueOrEnd
    | false, false => .value := by
  unfold Tokenizer.afterComma
  cases t.options.trailingCommas with
  | true | false =>
    cases t.nesting.innermost? with
    | none => rfl
    | some kind => cases kind <;> rfl

theorem passSeparator_eq (h : t.InRange) : passSeparator t = some t.passSeparator? := by
  unfold passSeparator Tokenizer.passSeparator?
  have more {b : UInt8} (here : t.cursor.peek = some b) : 0 < t.cursor.rest.length :=
    Cursor.length_rest_pos (Cursor.rest_of_peek here)
  cases t.expect with
  | colon =>
    dsimp only
    split
    · rename_i here
      rw [advance_eq h.cursor (more here)]
      rfl
    · rfl
  | commaOrEnd =>
    dsimp only
    split
    · rename_i here
      rw [advance_eq h.cursor (more here), inObject_eq h.depth, afterComma_eq]
      rfl
    · rfl
  | value | valueOrEnd | keyOrEnd | key | done => rfl

/-- After a separator no separator is asked for. -/
theorem passSeparator?_again (passes : t.passSeparator? = some u) (n : Nat) :
    (u.advance n).passSeparator? = none := by
  unfold Tokenizer.passSeparator? at passes
  split at passes
  · split at passes
    · cases passes
      rfl
    · cases passes
  · split at passes
    · cases passes
      change Tokenizer.passSeparator? { (t.advance 1).advance n with expect := t.afterComma } = none
      rw [Tokenizer.afterComma]
      split <;> rfl
    · cases passes
  · cases passes

/-- Past the gap at the cursor and the separator behind it, or the lexeme where none stands there. -/
def readOn (t : Tokenizer) : Option (Turn Tokenizer (Answer × Tokenizer)) := do
  let (closed, c) ← skipGap t.options.comments t.cursor
  let t := { t with cursor := c }
  if closed then
    match ← passSeparator t with
    | some t => some (.again t)
    | none =>
      let step ← readLexeme t
      some (.done step)
  else some (.done (t.refuse .unterminatedComment))

/-- The next token, with every step checked. -/
def next (t : Tokenizer) : Option (Answer × Tokenizer) := loop (·.left) readOn t

theorem readOn_eq (h : t.InRange) : readOn t =
    if t.passGap.1 then
      match t.passGap.2.passSeparator? with
      | some u => some (.again u)
      | none => some (.done t.passGap.2.readLexeme)
    else some (.done (t.passGap.2.refuse .unterminatedComment)) := by
  rw [readOn, skipGap_eq _ h.cursor]
  change (if t.passGap.1 then _ else _) = _
  cases t.passGap.1 with
  | false => rfl
  | true =>
    change (passSeparator t.passGap.2).bind _ = _
    rw [passSeparator_eq h.passGap, Option.bind_some]
    cases t.passGap.2.passSeparator? with
    | none =>
      change (readLexeme t.passGap.2).bind _ = _
      rw [readLexeme_eq h.passGap]
      rfl
    | some u => rfl

theorem afterGap_of_gap (t : Tokenizer) (read : Tokenizer → Answer × Tokenizer) :
    t.afterGap read =
      if t.passGap.1 then read t.passGap.2 else t.passGap.2.refuse .unterminatedComment := by
  unfold Tokenizer.afterGap
  cases t.passGap with
  | mk closed t => cases closed <;> rfl

theorem next_of_no_separator (h : t.InRange) (none : t.passGap.2.passSeparator? = none) :
    next t = some (t.afterGap Tokenizer.readLexeme) := by
  refine loop_of_done ?_
  rw [readOn_eq h, none, afterGap_of_gap]
  split <;> rfl

theorem left_of_passSeparator? (passes : t.passGap.2.passSeparator? = some u) : u.left < t.left := by
  obtain ⟨more, cursor, -⟩ := Tokenizer.passSeparator?_eq_some passes
  have gap : t.passGap.2.left ≤ t.left := by
    change (t.cursor.rest.drop _).length ≤ t.cursor.rest.length
    simp
  have shorter : u.left = t.passGap.2.left - 1 := by
    rw [Tokenizer.left, cursor, Cursor.advance_rest, List.length_drop]
    rfl
  omega

theorem next_eq (h : t.InRange) : next t = some t.next := by
  cases passes : t.passGap.2.passSeparator? with
  | none =>
    rw [next_of_no_separator h passes, Tokenizer.next, afterGap_of_gap, afterGap_of_gap, passes]
  | some u =>
    cases closed : t.passGap.1 with
    | false =>
      refine loop_of_done ?_
      rw [readOn_eq h, Tokenizer.next, afterGap_of_gap, closed]
      rfl
    | true =>
      have turn : readOn t = some (.again u) := by
        rw [readOn_eq h, closed, passes]
        rfl
      have again := next_of_no_separator (h.passGap.passSeparator? passes)
        (passSeparator?_again passes _)
      rw [next, loop_of_again turn (left_of_passSeparator? passes), Tokenizer.next, afterGap_of_gap,
        closed, passes]
      exact again

/-- Calls never fail. Whatever calls came before, errors and ends among them, the cursor stands in the
input and no more than 64 containers are open, and the next call comes to its answer with every step
checked: it moves and takes bytes only within the input, shifts a bit only to one of 64 levels and
takes nothing below zero. An escape never takes more bytes than there are. -/
theorem calls_never_fail (o : Options) (input : Bytes) :
    (∀ n, let t := (Tokenizer.start o input).after n
      t.position ≤ input.length ∧ t.depth ≤ 64 ∧ next t = some t.next) ∧
    ∀ bytes c k, Escape.read bytes = .ok (c, k) → k ≤ bytes.length := by
  refine ⟨fun n => ?_, fun bytes c k read => (Escape.read_count read).2⟩
  have inRange := (Tokenizer.InRange.start o input).after n
  exact ⟨Tokenizer.position_after_le o input n, inRange.depth, next_eq inRange⟩

/-- A string that ends in a backslash. The first call stops within the string, at the backslash, and
the second, which is made there, does not move on. -/
theorem calls_never_fail_within_string :
    let t := (Tokenizer.start .strict [0x22, 0x5C]).after 1
    t.position = 1 ∧ next t = some t.next ∧ t.next.2.position = 1 ∧ 2 ≤ [0x5C, 0x6E].length := by
  intro t
  obtain ⟨calls, escapes⟩ := calls_never_fail .strict [0x22, 0x5C]
  obtain ⟨-, -, checked⟩ := calls 1
  have newline : Escape.read [0x5C, 0x6E] = .ok (Char.ofNat 10, 2) := rfl
  exact ⟨by decide +kernel, checked, by decide +kernel, escapes _ _ _ newline⟩

end Checked

end PathFold.Json
