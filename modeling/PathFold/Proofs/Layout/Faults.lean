import PathFold.Json.Tokenizer.Run
import PathFold.Proofs.Grammar.Stop
import PathFold.Proofs.Layout.Reading

/-! The faults that the tokenizer reports. All of them have a wording of their own; that the nesting is
too deep is reported only where it is full, and a closer is blamed only where one is read. Whatever is
reported, the grammar state is left as it was. -/

namespace PathFold.Json

/-- Whether the tokenizer may report a fault while so many containers are open. -/
def Fault.Native (depth : Nat) : Fault → Prop
  | .expectedValue | .other _ => False
  | .nestingTooDeep => Nesting.maxDepth ≤ depth
  | _ => True

theorem Fault.Native.message_ne_expectedValue {fault : Fault} {depth : Nat}
    (h : fault.Native depth) : fault.message ≠ Fault.expectedValue.message := by
  cases fault with
  | expectedValue | other => cases h
  | escape fault => cases fault <;> decide
  | _ => decide

theorem Fault.Native.message_ne_nestingTooDeep {fault : Fault} {depth : Nat}
    (h : fault.Native depth) (room : depth < Nesting.maxDepth) :
    fault.message ≠ Fault.nestingTooDeep.message := by
  cases fault with
  | expectedValue | other => cases h
  | nestingTooDeep => exact absurd h (Nat.not_le_of_lt room)
  | escape fault => cases fault <;> decide
  | _ => decide

/-- Whether a fault may be reported while so many containers are open, at any lexeme but a closer. -/
def Fault.Plain (depth : Nat) (fault : Fault) : Prop :=
  fault.Native depth ∧ fault ≠ .mismatchedClose

/-- That a reader stops with these faults only. -/
def Reader.StopsWith (faults : Fault → Prop) (reader : Reader) : Prop :=
  ∀ bytes stop, reader bytes = .error stop → faults stop.fault

namespace Reader.StopsWith

variable {faults : Fault → Prop}

theorem ok (count : Bytes → Nat) : StopsWith faults fun bytes => .ok (count bytes) := by
  intro bytes stop h
  cases h

theorem andThen {first second : Reader} (hfirst : first.StopsWith faults)
    (hsecond : second.StopsWith faults) : (first.andThen second).StopsWith faults := by
  intro bytes stop h
  unfold Reader.andThen at h
  cases early : first bytes with
  | error stop =>
    rw [early] at h
    cases h
    exact hfirst bytes stop early
  | ok n =>
    rw [early] at h
    dsimp only at h
    cases late : second (bytes.drop n) with
    | error stop =>
      rw [late] at h
      cases h
      exact hsecond _ stop late
    | ok m =>
      rw [late] at h
      cases h

end Reader.StopsWith

namespace Numeral

variable {faults : Fault → Prop}

theorem stopsWith_whole (number : faults .invalidNumber) : whole.StopsWith faults := by
  intro bytes stop h
  unfold whole at h
  repeat' split at h
  all_goals cases h
  all_goals exact number

theorem stopsWith_someDigits {fault : Fault} (missing : faults fault) :
    (someDigits fault).StopsWith faults := by
  intro bytes stop h
  unfold someDigits at h
  split at h
  · cases h
    exact missing
  · cases h

theorem stopsWith_fraction (missing : faults .expectedFractionDigit) :
    fraction.StopsWith faults := by
  intro bytes stop h
  have tail := (Reader.StopsWith.ok fun _ => 1).andThen (stopsWith_someDigits missing)
  unfold fraction at h
  split at h
  · exact tail _ _ h
  · cases h

theorem stopsWith_exponent (missing : faults .expectedExponentDigit) :
    exponent.StopsWith faults := by
  intro bytes stop h
  have sign : exponentSign.StopsWith faults := .ok _
  have tail := (Reader.StopsWith.ok fun _ => 1).andThen (sign.andThen (stopsWith_someDigits missing))
  unfold exponent at h
  split at h
  · exact tail _ _ h
  · cases h

/-- All that can be wrong with a number. -/
theorem stopsWith_read (number : faults .invalidNumber) (fraction : faults .expectedFractionDigit)
    (exponent : faults .expectedExponentDigit) : read.StopsWith faults :=
  (Reader.StopsWith.ok _).andThen ((stopsWith_whole number).andThen
    ((stopsWith_fraction fraction).andThen (stopsWith_exponent exponent)))

end Numeral

namespace Quotation

/-- All that can be wrong with the contents of a string. -/
theorem fault_of_ofFront (bytes : Bytes) : ∀ {fault : Fault} {n : Nat},
    ofFront bytes = .faulty fault n → fault = .controlInString ∨ ∃ escape, fault = .escape escape := by
  fun_induction ofFront bytes with
  | case1 | case3 => rintro _ _ ⟨⟩
  | case2 =>
    rintro _ _ ⟨⟩
    exact .inl rfl
  | case4 =>
    rintro _ _ ⟨⟩
    exact .inr ⟨_, rfl⟩
  | case5 =>
    rename_i ih
    intro fault n h
    obtain ⟨k, tail, -⟩ := faulty_of_afterEscape h
    exact ih tail

end Quotation

namespace Tokenizer

/-- That a step gives a token, or the end, or is refused with one of these faults; and that it leaves
the grammar state as it was unless it gives a token. -/
inductive ComesTo (t : Tokenizer) (faults : Fault → Prop) : Answer × Tokenizer → Prop
  | token {token : Token} {u : Tokenizer} : ComesTo t faults (.ok (some token), u)
  | finish : ComesTo t faults (.ok none, t)
  | refused {fault : Fault} {position : Nat} {u : Tokenizer} : faults fault → u.stage = t.stage →
      ComesTo t faults (.error ⟨fault, position⟩, u)

namespace ComesTo

variable {t : Tokenizer} {faults : Fault → Prop} {step : Answer × Tokenizer}

theorem fault_of_error (h : t.ComesTo faults step) {error : ParseError}
    (refused : step.1 = .error error) : faults error.fault := by
  cases h with
  | token | finish => cases refused
  | refused blamed =>
    cases refused
    exact blamed

theorem stage_of_no_token (h : t.ComesTo faults step) (none : tokenOf step.1 = none) :
    step.2.stage = t.stage := by
  cases h with
  | token => cases none
  | finish => rfl
  | refused _ same => exact same

end ComesTo

section Readers

variable (t : Tokenizer)

theorem comesTo_refuse {faults : Fault → Prop} {fault : Fault} (blamed : faults fault) :
    t.ComesTo faults (t.refuse fault) :=
  .refused blamed rfl

theorem comesTo_refuseAfter {faults : Fault → Prop} {fault : Fault} (n : Nat)
    (blamed : faults fault) : t.ComesTo faults (t.refuseAfter n fault) :=
  .refused blamed rfl

theorem comesTo_readClosing (container : ContainerKind) :
    t.ComesTo (· = .mismatchedClose) (t.readClosing container) := by
  unfold readClosing
  split
  · exact .token
  · exact comesTo_refuse t rfl

theorem comesTo_readOpening (container : ContainerKind) :
    t.ComesTo (Fault.Plain t.depth) (t.readOpening container) := by
  unfold readOpening
  split
  · rename_i full
    exact comesTo_refuse t ⟨(Nesting.enter?_eq_none_iff _ _).1 full, by simp⟩
  · exact .token

theorem comesTo_readQuoted (kind : TokenKind) (expect : Expect) :
    t.ComesTo (Fault.Plain t.depth) (t.readQuoted kind expect) := by
  unfold readQuoted
  dsimp only
  cases read : Quotation.ofFront (t.cursor.rest.drop 1) with
  | closed => exact .token
  | unclosed => exact .refused ⟨trivial, by simp⟩ rfl
  | faulty fault n =>
    refine comesTo_refuseAfter t _ ?_
    rcases Quotation.fault_of_ofFront _ read with rfl | ⟨escape, rfl⟩ <;>
    · exact ⟨trivial, by simp⟩

theorem comesTo_readNumber : t.ComesTo (Fault.Plain t.depth) t.readNumber := by
  have faults : Numeral.read.StopsWith (Fault.Plain t.depth) :=
    Numeral.stopsWith_read ⟨trivial, by simp⟩ ⟨trivial, by simp⟩ ⟨trivial, by simp⟩
  unfold readNumber
  split
  · exact .token
  · rename_i stopped
    exact comesTo_refuseAfter t _ (faults _ _ stopped)

theorem comesTo_readLiteral (kind : TokenKind) (word : Bytes) :
    t.ComesTo (Fault.Plain t.depth) (t.readLiteral kind word) := by
  unfold readLiteral
  split
  · exact .token
  · exact comesTo_refuse t ⟨trivial, by simp⟩

theorem comesTo_readValue (b : UInt8) : t.ComesTo (Fault.Plain t.depth) (t.readValue b) := by
  unfold readValue
  repeat' split
  · exact comesTo_readOpening t _
  · exact comesTo_readOpening t _
  · exact comesTo_readQuoted t _ _
  · exact comesTo_readNumber t
  · exact comesTo_readLiteral t _ _
  · exact comesTo_readLiteral t _ _
  · exact comesTo_readLiteral t _ _
  · exact comesTo_refuse t ⟨trivial, by simp⟩

theorem comesTo_readEnd : t.ComesTo (Fault.Plain t.depth) t.readEnd := by
  unfold readEnd
  split
  · exact comesTo_refuse t ⟨trivial, by simp⟩
  · exact .finish

/-- Either a closer that the grammar state takes is read, or no closer is blamed. -/
theorem readLexeme_closes_or_comesTo :
    (∃ kind tail, t.expect.takesCloser kind ∧ t.cursor.rest = kind.closer :: tail) ∨
      t.ComesTo (Fault.Plain t.depth) t.readLexeme := by
  unfold readLexeme
  cases peek : t.cursor.peek with
  | none => exact .inr (comesTo_readEnd t)
  | some b =>
    have ahead := Cursor.rest_of_peek peek
    dsimp only
    cases t.expect with
    | done | colon => exact .inr (comesTo_refuse t ⟨trivial, by simp⟩)
    | value => exact .inr (comesTo_readValue t b)
    | valueOrEnd =>
      dsimp only
      split
      · rename_i close
        exact .inl ⟨.array, _, rfl, close ▸ ahead⟩
      · exact .inr (comesTo_readValue t b)
    | keyOrEnd =>
      dsimp only
      repeat' split
      · rename_i close
        exact .inl ⟨.object, _, rfl, close ▸ ahead⟩
      · exact .inr (comesTo_readQuoted t _ _)
      · exact .inr (comesTo_refuse t ⟨trivial, by simp⟩)
    | key =>
      dsimp only
      split
      · exact .inr (comesTo_readQuoted t _ _)
      · exact .inr (comesTo_refuse t ⟨trivial, by simp⟩)
    | commaOrEnd =>
      dsimp only
      repeat' split
      · rename_i close
        exact .inl ⟨.object, _, rfl, close ▸ ahead⟩
      · rename_i close
        exact .inl ⟨.array, _, rfl, close ▸ ahead⟩
      · exact .inr (comesTo_refuse t ⟨trivial, by simp⟩)

end Readers

theorem stage_of_readLexeme {t : Tokenizer} (none : tokenOf t.readLexeme.1 = none) :
    t.readLexeme.2.stage = t.stage := by
  rcases t.readLexeme_closes_or_comesTo with ⟨kind, tail, takes, ahead⟩ | comes
  · rw [readLexeme_of_takesCloser takes ahead] at none ⊢
    exact (t.comesTo_readClosing kind).stage_of_no_token none
  · exact comes.stage_of_no_token none

/-- A closer is blamed only where it is one that the grammar state takes, but the innermost container
is not of its kind. -/
theorem closer_of_readLexeme {t : Tokenizer} {position : Nat}
    (refused : t.readLexeme.1 = .error ⟨.mismatchedClose, position⟩) :
    ∃ kind tail, t.expect.takesCloser kind ∧ t.cursor.rest = kind.closer :: tail ∧
      t.nesting.innermost? ≠ some kind ∧ position = t.position := by
  rcases t.readLexeme_closes_or_comesTo with ⟨kind, tail, takes, ahead⟩ | comes
  · rw [readLexeme_of_takesCloser takes ahead, readClosing] at refused
    split at refused
    · cases refused
    · rename_i innermost
      cases refused
      exact ⟨kind, tail, takes, ahead, innermost, rfl⟩
  · exact absurd rfl (comes.fault_of_error refused).2

/-- That a step, if it is refused, is refused with a fault that may be reported at this depth. -/
def Refuses (depth : Nat) (step : Answer × Tokenizer) : Prop :=
  ∀ error, step.1 = .error error → error.fault.Native depth

theorem refuses_readLexeme (t : Tokenizer) : Refuses t.depth t.readLexeme := by
  intro error refused
  rcases t.readLexeme_closes_or_comesTo with ⟨kind, tail, takes, ahead⟩ | comes
  · rw [readLexeme_of_takesCloser takes ahead] at refused
    rw [(t.comesTo_readClosing kind).fault_of_error refused]
    trivial
  · exact (comes.fault_of_error refused).1

theorem refuses_afterGap {t : Tokenizer} {read : Tokenizer → Answer × Tokenizer} {depth : Nat}
    (h : ∀ n, Refuses depth (read (t.advance n))) : Refuses depth (t.afterGap read) := by
  unfold afterGap passGap
  dsimp only
  cases (Gap.ofFront t.options.comments t.cursor.rest).closed with
  | true => exact h _
  | false =>
    rintro error ⟨⟩
    trivial

/-- What a call refuses it refuses with a fault that may be reported at its depth. -/
theorem refuses_next (t : Tokenizer) : Refuses t.depth t.next := by
  unfold next
  refine refuses_afterGap fun n => ?_
  split
  · exact refuses_readLexeme _
  · rename_i u passes
    have same := congrArg Nesting.depth (nesting_of_passSeparator? passes)
    change Refuses (t.advance n).nesting.depth _
    rw [← same]
    exact refuses_afterGap fun m => refuses_readLexeme _

end Tokenizer

end PathFold.Json
