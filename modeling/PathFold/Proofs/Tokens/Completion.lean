import PathFold.Proofs.Grammar.Stop
import PathFold.Proofs.Layout.Trail
import PathFold.Proofs.Layout.Tree

/-! Inputs that are in error. Up to where the first error is reported an input is the beginning of a
document, which more bytes complete. -/

namespace PathFold.Json

variable {o : Options}

/-- That the document is over only outside all containers. -/
def Stage.EndsOutside (stage : Stage) : Prop := stage.expect = .done → stage.kinds = []

theorem Stage.endsOutside_afterValue (kinds : List ContainerKind) :
    (Stage.afterValue kinds).EndsOutside := by
  intro done
  cases kinds with
  | nil => rfl
  | cons => cases done

theorem Lead.endsOutside {Last : Bytes → Prop} {stage ready : Stage} {lead : Bytes}
    (h : Lead o Last stage lead ready) (ends : stage.EndsOutside) : ready.EndsOutside := by
  cases h with
  | gap => exact ends
  | colon => rintro ⟨⟩
  | @comma kinds =>
    intro done
    simp only [Stage.afterComma] at done
    split at done <;> cases done

theorem Writes.endsOutside {stage next : Stage} {written : Bytes} {lexeme : Lexeme}
    (h : Writes stage written lexeme next) : next.EndsOutside := by
  cases h with
  | opening kind => cases kind <;> rintro ⟨⟩
  | closing | scalar => exact Stage.endsOutside_afterValue _
  | name => rintro ⟨⟩

/-- That more bytes after these bring a stage to the end of a document that there is room for. -/
def Stage.Completable (o : Options) (stage : Stage) (bytes : Bytes) : Prop :=
  ∃ more lexemes, Layout o stage (bytes ++ more) lexemes .done ∧ Room stage.kinds.length lexemes

namespace Stage.Completable

variable {stage ready next : Stage} {bytes : Bytes}

theorem of_append {more : Bytes} (h : Completable o stage (bytes ++ more)) :
    Completable o stage bytes := by
  obtain ⟨rest, lexemes, layout, room⟩ := h
  rw [List.append_assoc] at layout
  exact ⟨more ++ rest, lexemes, layout, room⟩

theorem after_lead {lead : Bytes} (before : Lead o (IsGap o.comments) stage lead ready)
    (h : Completable o ready bytes) : Completable o stage (lead ++ bytes) := by
  obtain ⟨more, lexemes, layout, room⟩ := h
  refine ⟨more, lexemes, ?_, before.kinds ▸ room⟩
  rw [List.append_assoc]
  exact layout.after_lead before

theorem after_writes {written : Bytes} {lexeme : Lexeme}
    (writes : Writes stage written lexeme next)
    (enter : ∀ kind, lexeme.kind = .opening kind → stage.kinds.length < Nesting.maxDepth)
    (h : Completable o next bytes) : Completable o stage (written ++ bytes) := by
  obtain ⟨more, lexemes, layout, room⟩ := h
  refine ⟨more, lexeme :: lexemes, ?_, enter, writes.depth ▸ room⟩
  rw [List.append_assoc]
  have whole : Layout o stage ([] ++ (written ++ (bytes ++ more))) (lexeme :: lexemes) .done :=
    .more (.gap .nil) writes layout
  exact whole

/-- A scalar or a name, and then what comes next. -/
theorem of_writes {written : Bytes} {lexeme : Lexeme} (writes : Writes stage written lexeme next)
    (noOpening : ∀ kind, lexeme.kind ≠ .opening kind) (h : Completable o next []) :
    Completable o stage written := by
  have whole := h.after_writes writes fun kind opening => (noOpening kind opening).elim
  rwa [List.append_nil] at whole

theorem nil_of (h : Completable o stage bytes) : Completable o stage [] :=
  of_append h

/-- After a value the containers are closed one by one. -/
theorem afterValue (kinds : List ContainerKind) : Completable o (.afterValue kinds) [] := by
  induction kinds with
  | nil => exact ⟨[], [], .last (.gap (.closed .nil)), trivial⟩
  | cons kind kinds ih =>
    have closing : Writes (.afterValue (kind :: kinds)) [kind.closer] (.closing kind)
        (.afterValue kinds) := .closing rfl
    exact (of_writes closing (by rintro _ ⟨⟩) ih).nil_of

theorem of_takesValue {expect : Expect} (takes : expect.takesValue) (kinds : List ContainerKind) :
    Completable o ⟨expect, kinds⟩ [] :=
  (of_writes (.scalar takes .null) (by rintro _ ⟨⟩) (afterValue kinds)).nil_of

theorem colon (kinds : List ContainerKind) : Completable o ⟨.colon, kinds⟩ [] := by
  have lead : Lead o (IsGap o.comments) ⟨.colon, kinds⟩ [0x3A] ⟨.value, kinds⟩ := .colon .nil .nil
  exact ((of_takesValue rfl kinds).after_lead lead).nil_of

theorem of_takesName {expect : Expect} (takes : expect.takesName) (kinds : List ContainerKind) :
    Completable o ⟨expect, kinds⟩ [] :=
  (of_writes (.name takes .nil) (by rintro _ ⟨⟩) (colon kinds)).nil_of

/-- Outside all containers a comma has another value after it. -/
theorem comma : Completable o ⟨.commaOrEnd, []⟩ [] := by
  have lead : Lead o (IsGap o.comments) ⟨.commaOrEnd, []⟩ [0x2C]
      (.afterComma o.trailingCommas []) := .comma .nil .nil
  have takes : (Stage.afterComma o.trailingCommas []).expect.takesValue := by
    cases o.trailingCommas <;> rfl
  exact ((of_takesValue takes []).after_lead lead).nil_of

/-- From every stage a document can be completed. -/
theorem nil (ends : stage.EndsOutside) : Completable o stage [] := by
  obtain ⟨expect, kinds⟩ := stage
  cases expect with
  | value | valueOrEnd => exact of_takesValue rfl kinds
  | key | keyOrEnd => exact of_takesName rfl kinds
  | colon => exact colon kinds
  | commaOrEnd =>
    cases kinds with
    | nil => exact comma
    | cons kind kinds => exact afterValue (kind :: kinds)
  | done =>
    obtain rfl : kinds = [] := ends rfl
    exact afterValue []

/-- What begins a lead can be completed: first the gap at its end, and then a document. -/
theorem of_lead {lead : Bytes} (h : Lead o (BeginsGap o.comments) stage lead ready)
    (ends : ready.EndsOutside) : Completable o stage lead := by
  obtain ⟨more, whole⟩ : ∃ more, Lead o (IsGap o.comments) stage (lead ++ more) ready := by
    rcases h.gap_or_separates with ⟨rfl, more, gap⟩ |
      ⟨separator, gap, last, rfl, before, ⟨more, after⟩, parts⟩
    · exact ⟨more, .gap gap⟩
    · refine ⟨more, ?_⟩
      rw [List.append_assoc, List.cons_append]
      exact parts.lead before after
  have completable := (nil ends).after_lead whole
  rw [List.append_nil] at completable
  exact completable.of_append

end Stage.Completable

namespace Tokenizer

/-- That a step, if it is refused, is refused where the bytes before can be completed. -/
def BreaksOff (t : Tokenizer) (step : Answer × Tokenizer) : Prop :=
  ∀ error, step.1 = .error error → ∃ n ≤ t.left, error.position = t.position + n ∧
    t.stage.Completable t.options (t.cursor.rest.take n)

theorem breaksOff_take (t : Tokenizer) (kind : TokenKind) (n : Nat) (expect : Expect)
    (nesting : Nesting) : t.BreaksOff (t.take kind n expect nesting) := by
  rintro error ⟨⟩

/-- A number may go on with a zero where it is refused. -/
theorem breaksOff_readNumber {t : Tokenizer} (takes : t.expect.takesValue) :
    t.BreaksOff t.readNumber := by
  have within := Numeral.within_read t.cursor.rest
  unfold readNumber
  cases read : Numeral.read t.cursor.rest with
  | ok n => exact breaksOff_take t _ _ _ _
  | error stop =>
    rw [read] at within
    rintro error ⟨⟩
    have numeral := Numeral.isNumeral_of_stop read
    have writes : Writes t.stage (t.cursor.rest.take stop.offset ++ [0x30]) _ _ :=
      .scalar takes (.number numeral)
    have completable : t.stage.Completable t.options _ :=
      .of_writes writes (by rintro _ ⟨⟩) (.nil writes.endsOutside)
    exact ⟨stop.offset, within, rfl, completable.of_append⟩

section Readers

variable {t : Tokenizer} (ends : t.stage.EndsOutside)
include ends

theorem breaksOff_of_position {step : Answer × Tokenizer}
    (h : ∀ error, step.1 = .error error → error.position = t.position) : t.BreaksOff step :=
  fun error refused => ⟨0, Nat.zero_le _, h error refused, .nil ends⟩

theorem breaksOff_refuse (fault : Fault) : t.BreaksOff (t.refuse fault) := by
  refine breaksOff_of_position ends ?_
  rintro error ⟨⟩
  rfl

theorem breaksOff_readOpening (container : ContainerKind) :
    t.BreaksOff (t.readOpening container) := by
  unfold readOpening
  split
  · exact breaksOff_refuse ends _
  · exact breaksOff_take t _ _ _ _

theorem breaksOff_readClosing (container : ContainerKind) :
    t.BreaksOff (t.readClosing container) := by
  unfold readClosing
  split
  · exact breaksOff_take t _ _ _ _
  · exact breaksOff_refuse ends _

theorem breaksOff_readLiteral (kind : TokenKind) (word : Bytes) :
    t.BreaksOff (t.readLiteral kind word) := by
  unfold readLiteral
  split
  · exact breaksOff_take t _ _ _ _
  · exact breaksOff_refuse ends _

theorem breaksOff_readEnd : t.BreaksOff t.readEnd := by
  unfold readEnd
  split
  · exact breaksOff_refuse ends _
  · rintro error ⟨⟩

/-- The contents of a string may end where it is faulty. -/
theorem breaksOff_readQuoted {kind : TokenKind} {expect : Expect} {tail : Bytes}
    (ahead : t.cursor.rest = 0x22 :: tail) (noOpening : ∀ container, kind ≠ .opening container)
    (writes : ∀ raw, IsContents raw →
      Writes t.stage (quoted raw) ⟨kind, raw⟩ ⟨expect, t.nesting.inward⟩) :
    t.BreaksOff (t.readQuoted kind expect) := by
  have content : t.cursor.rest.drop 1 = tail := by rw [ahead, List.drop_one, List.tail_cons]
  have within := Quotation.within_ofFront tail
  unfold readQuoted
  dsimp only
  rw [content]
  cases read : Quotation.ofFront tail with
  | closed => rintro error ⟨⟩
  | unclosed =>
    refine breaksOff_of_position ends ?_
    rintro error ⟨⟩
    rfl
  | faulty fault n =>
    rw [read] at within
    rintro error ⟨⟩
    have contents := Quotation.isContents_of_faulty tail read
    have completable : t.stage.Completable t.options (quoted (tail.take n)) :=
      .of_writes (writes _ contents) noOpening (.nil (writes _ contents).endsOutside)
    refine ⟨1 + n, ?_, rfl, ?_⟩
    · have within : n ≤ tail.length := within
      simp only [left, ahead, List.length_cons]
      omega
    · rw [ahead, Nat.add_comm, List.take_succ_cons]
      exact completable.of_append

theorem breaksOff_readValue {b : UInt8} {tail : Bytes} (takes : t.expect.takesValue)
    (ahead : t.cursor.rest = b :: tail) : t.BreaksOff (t.readValue b) := by
  unfold readValue
  split
  · exact breaksOff_readOpening ends _
  · split
    · exact breaksOff_readOpening ends _
    · split
      · rename_i quote
        refine breaksOff_readQuoted ends (quote ▸ ahead) (by simp) fun raw contents => ?_
        rw [afterValue_eq]
        exact .scalar takes (.string contents)
      · repeat' split
        · exact breaksOff_readNumber takes
        · exact breaksOff_readLiteral ends _ _
        · exact breaksOff_readLiteral ends _ _
        · exact breaksOff_readLiteral ends _ _
        · exact breaksOff_refuse ends _

theorem breaksOff_readLexeme : t.BreaksOff t.readLexeme := by
  have reads := t.reads_readLexeme
  generalize t.readLexeme = step at reads
  cases reads with
  | finish => exact breaksOff_readEnd ends
  | closing => exact breaksOff_readClosing ends _
  | name takes ahead =>
    exact breaksOff_readQuoted ends ahead (by simp) fun raw contents => .name takes contents
  | value takes ahead => exact breaksOff_readValue ends takes ahead
  | refused fault => exact breaksOff_refuse ends fault

/-- Where a call is refused, the bytes that it has passed can be completed. -/
theorem breaksOff_next : t.BreaksOff t.next := by
  intro error refused
  rcases t.next_cases with ⟨passed, rest, ready, ahead, came, call⟩ | ⟨ready, came, call⟩
  · have here : ready.cursor.rest = rest := by simp [came.cursor, ahead]
    have outside := came.lead.endsOutside ends
    rw [call] at refused
    obtain ⟨n, le, position, completable⟩ := breaksOff_readLexeme outside error refused
    rw [left, here] at le
    rw [here, came.options] at completable
    refine ⟨passed.length + n, ?_, ?_, ?_⟩
    · rw [left, ahead, List.length_append]
      exact Nat.add_le_add_left le _
    · rw [position, Tokenizer.position, came.cursor]
      exact Nat.add_assoc ..
    · rw [ahead, List.take_length_add_append]
      by_cases none : rest = []
      · -- At the end of the input the lead may stop inside a line comment.
        rw [none, List.take_nil, List.append_nil]
        exact .of_lead (came.lead.mono fun _ before => .of_isLastGap before.1) outside
      · exact completable.after_lead (came.lead.mono fun _ before => before.2 none)
  · rw [call] at refused
    cases refused
    refine ⟨t.left, Nat.le_refl _, ?_, ?_⟩
    · rw [Tokenizer.position, came.cursor]
      rfl
    · rw [left, List.take_length]
      exact .of_lead came.lead (came.lead.endsOutside ends)

end Readers

/-- That what a tokenizer has read of an input can be completed if what comes next can. -/
structure OnCourse (o : Options) (input : Bytes) (t : Tokenizer) : Prop where
  options : t.options = o
  source : t.cursor.input = input
  ends : t.stage.EndsOutside
  completable : ∀ bytes, t.stage.Completable o bytes →
    Stage.start.Completable o (input.take t.position ++ bytes)

theorem onCourse_start (o : Options) (input : Bytes) : (start o input).OnCourse o input :=
  ⟨rfl, rfl, by rintro ⟨⟩, fun _ completable => completable⟩

theorem OnCourse.next {input : Bytes} {t u : Tokenizer} {token : Token} (h : t.OnCourse o input)
    (call : t.next = (.ok (some token), u)) : u.OnCourse o input := by
  obtain ⟨passed, ready, written, ahead, came, took⟩ := took_of_next call
  obtain ⟨start, stop, there⟩ := span_of_took came took
  refine ⟨?_, ?_, took.writes.endsOutside, fun bytes completable => ?_⟩
  · rw [took.options, came.options, h.options]
  · rw [← h.source, ← input_next t, call]
  · have rest : input.drop t.position = (passed ++ written) ++ u.cursor.rest := by
      rw [List.append_assoc, ← ahead, t.rest_eq_drop, h.source]
    have taken : u.position = t.position + (passed ++ written).length := by
      rw [there, stop, start, List.length_append, Nat.add_assoc]
    have lead := came.lead
    rw [h.options] at lead
    rw [taken, List.take_add, rest, List.take_left, List.append_assoc, List.append_assoc]
    refine h.completable _ (.after_lead lead (.after_writes took.writes ?_ completable))
    intro kind opening
    rw [length_stage]
    exact took.room kind opening

theorem onCourse_after {input : Bytes} {n : Nat}
    (tokens : ∀ m < n, ∃ token, ((start o input).after m).next.1 = .ok (some token)) :
    ((start o input).after n).OnCourse o input := by
  induction n with
  | zero => exact onCourse_start o input
  | succ n ih =>
    obtain ⟨token, given⟩ := tokens n (Nat.lt_succ_self n)
    exact (ih fun m less => tokens m (Nat.lt_succ_of_lt less)).next (next_after given)

/-- Bytes that can be completed from the start begin an input that is read without an error. -/
theorem exists_run_of_completable {bytes : Bytes} (h : Stage.start.Completable o bytes) :
    ∃ more final, (start o (bytes ++ more)).run.getLast? = some (.ok none, final) ∧
      final.depth = 0 := by
  obtain ⟨more, lexemes, layout, room⟩ := h
  obtain ⟨tokens, final, completes, -, stage⟩ :=
    completes_of_layout (t := start o (bytes ++ more)) layout room fun _ => rfl
  refine ⟨more, final, completes.run.1, ?_⟩
  rw [← length_stage, stage]
  rfl

/-- The first error is reported inside the input and after all tokens, and the bytes up to it begin
an input that is read to its end without an error. -/
theorem completable_up_to_first_error {input : Bytes} {n : Nat} {error : ParseError}
    (first : ∀ m < n, ∃ answer, ((start o input).after m).next.1 = .ok answer)
    (refused : ((start o input).after n).next.1 = .error error) :
    error.position ≤ input.length ∧
    (∀ m < n, ∀ token, ((start o input).after m).next.1 = .ok (some token) →
      token.stop ≤ error.position) ∧
    ∃ more final,
      (start o (input.take error.position ++ more)).run.getLast? = some (.ok none, final) ∧
      final.depth = 0 := by
  have tokens : ∀ m < n, ∃ token, ((start o input).after m).next.1 = .ok (some token) := by
    intro m before
    obtain ⟨answer, given⟩ := first m before
    cases answer with
    | some token => exact ⟨token, given⟩
    | none =>
      have again := next_after_end given (Nat.le_of_lt before)
      rw [again] at refused
      cases refused
  have here := onCourse_after tokens
  obtain ⟨k, le, position, completable⟩ := breaksOff_next here.ends error refused
  have within := position_after_le o input n
  have rest := ((start o input).after n).rest_eq_drop
  rw [here.source] at rest
  rw [left, rest, List.length_drop] at le
  refine ⟨by omega, fun m before token given => ?_, exists_run_of_completable ?_⟩
  · have stop := position_of_next (next_after given)
    have later := (start o input).position_after_mono (Nat.succ_le_of_lt before)
    rw [stop] at later
    rw [position]
    exact Nat.le_add_right_of_le later
  · have whole := here.completable _ (here.options ▸ completable)
    rw [rest] at whole
    rw [position, List.take_add]
    exact whole

/-- In `[1,x` the error is reported at the `x`. -/
theorem completable_up_to_first_error_element :
    ((start .strict [0x5B, 0x31, 0x2C, 0x78]).after 2).next.1 =
        .error ⟨.unexpectedCharacter, 3⟩ ∧
      ∃ more final, (start .strict ([0x5B, 0x31, 0x2C] ++ more)).run.getLast? =
        some (.ok none, final) ∧ final.depth = 0 := by
  have feed : (start .strict [0x5B, 0x31, 0x2C, 0x78]).feed =
      ⟨[⟨⟨.opening .array, [0x5B], 0, 1, false⟩, 1⟩, ⟨⟨.number, [0x31], 1, 2, false⟩, 1⟩],
        some ⟨.unexpectedCharacter, 3⟩⟩ := by decide +kernel
  have opening := next_of_pull (congrArg (·.pulls[0]?) feed)
  have number := next_of_pull (congrArg (·.pulls[1]?) feed)
  have refused := next_of_failure (congrArg (·.failure) feed)
  rw [feed] at refused
  have first : ∀ m < 2, ∃ answer,
      ((start .strict [0x5B, 0x31, 0x2C, 0x78]).after m).next.1 = .ok answer := by
    intro m before
    rcases Nat.lt_succ_iff_lt_or_eq.1 before with before | rfl
    · obtain rfl := Nat.lt_one_iff.1 before
      exact ⟨_, opening⟩
    · exact ⟨_, number⟩
  exact ⟨refused, (completable_up_to_first_error first refused).2.2⟩

end Tokenizer

end PathFold.Json
