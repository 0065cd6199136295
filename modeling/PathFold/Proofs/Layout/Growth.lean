import PathFold.Proofs.Layout.Faults
import PathFold.Proofs.Layout.Run

/-! Layouts that grow at the end. Calls may go on after an error, and what they give then belongs to no
document that is there; but the tokens given so far always are the lexemes of some layout, which
ends in the stage that the tokenizer has come to. -/

namespace PathFold.Json

variable {o : Options} {stage ready final next : Stage} {lead bytes : Bytes} {lexemes : List Lexeme}

/-- A lead can do without its gaps. -/
theorem Lead.bare {Last : Bytes → Prop} (h : Lead o Last stage lead ready) :
    ∃ bare, Lead o (IsGap o.comments) stage bare ready := by
  cases h with
  | gap => exact ⟨[], .gap .nil⟩
  | colon => exact ⟨_, .colon .nil .nil⟩
  | comma => exact ⟨_, .comma .nil .nil⟩

theorem Stage.afterComma_ne {trailing : Bool} {kinds outer : List ContainerKind} {expect : Expect}
    (asks : expect = .colon ∨ expect = .commaOrEnd) :
    Stage.afterComma trailing kinds ≠ ⟨expect, outer⟩ := by
  intro same
  have same := congrArg Stage.expect same
  simp only [Stage.afterComma] at same
  rcases asks with rfl | rfl <;> split at same <;> cases same

/-- After a separator no other is asked for, so of two leads one is a gap. -/
theorem Lead.andThen {First Second : Bytes → Prop} {middle : Stage} {lead' : Bytes}
    (first : Lead o First stage lead middle) (second : Lead o Second middle lead' ready) :
    ∃ whole, Lead o (IsGap o.comments) stage whole ready := by
  cases first with
  | gap => exact second.bare
  | colon =>
    cases second with
    | gap => exact ⟨_, .colon .nil .nil⟩
  | @comma kinds =>
    generalize after : Stage.afterComma o.trailingCommas kinds = s at second
    cases second with
    | gap =>
      subst after
      exact ⟨_, .comma .nil .nil⟩
    | colon => exact absurd after (Stage.afterComma_ne (.inl rfl))
    | comma => exact absurd after (Stage.afterComma_ne (.inr rfl))

theorem Layout.concat_lead {Last : Bytes → Prop} (h : Layout o stage bytes lexemes final)
    (passed : Lead o Last final lead ready) : ∃ whole, Layout o stage whole lexemes ready := by
  induction h with
  | last before =>
    obtain ⟨whole, passed⟩ := before.andThen passed
    exact ⟨whole, .last (passed.mono fun _ => .closed)⟩
  | more before writes _ ih =>
    obtain ⟨rest, after⟩ := ih passed
    exact ⟨_, .more before writes after⟩

theorem Layout.concat {written : Bytes} {lexeme : Lexeme} (h : Layout o stage bytes lexemes final)
    (writes : Writes final written lexeme next) :
    ∃ whole, Layout o stage whole (lexemes ++ [lexeme]) next := by
  induction h with
  | last before =>
    obtain ⟨bare, before⟩ := before.bare
    exact ⟨_, .more before writes (.last (.gap (.closed .nil)))⟩
  | more before writes' _ ih =>
    obtain ⟨rest, after⟩ := ih writes
    exact ⟨_, .more before writes' after⟩

namespace Tokenizer

/-- A call that gives no token may still have passed a lead. -/
theorem lead_of_no_token {t : Tokenizer} (none : tokenOf t.next.1 = none) :
    ∃ passed, Lead t.options (fun _ => True) t.stage passed t.next.2.stage := by
  rcases t.next_cases with ⟨passed, rest, ready, -, came, call⟩ | ⟨ready, came, call⟩
  · rw [call] at none ⊢
    rw [stage_of_readLexeme none]
    exact ⟨passed, came.lead.mono fun _ _ => trivial⟩
  · rw [call]
    exact ⟨t.cursor.rest, came.lead.mono fun _ _ => trivial⟩

theorem options_after (o : Options) (input : Bytes) (n : Nat) :
    ((start o input).after n).options = o := by
  induction n with
  | zero => rfl
  | succ n ih => exact (options_next _).trans ih

theorem layout_after (o : Options) (input : Bytes) (n : Nat) :
    ∃ bytes, Layout o .start bytes (((start o input).given n).map (·.lexeme))
      ((start o input).after n).stage := by
  induction n with
  | zero => exact ⟨[], .last (.gap (.closed .nil))⟩
  | succ n ih =>
    obtain ⟨bytes, layout⟩ := ih
    have options := options_after o input n
    rw [given]
    generalize (start o input).given n = tokens at layout ⊢
    rw [after]
    generalize (start o input).after n = t at layout options ⊢
    subst options
    cases answer : tokenOf t.next.1 with
    | none =>
      obtain ⟨passed, lead⟩ := lead_of_no_token answer
      simpa using layout.concat_lead lead
    | some token =>
      obtain ⟨passed, ready, written, -, came, took⟩ := took_of_next (step_of_tokenOf answer)
      obtain ⟨whole, layout⟩ := layout.concat_lead came.lead
      simpa using layout.concat took.writes

end Tokenizer

end PathFold.Json
