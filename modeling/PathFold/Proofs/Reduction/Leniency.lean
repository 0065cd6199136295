import PathFold.Proofs.Layout.Run
import PathFold.Reducer.Basic

/-! Leniency only adds. Under options that allow more, the tokenizer repeats call by call all that it
gives under narrower ones, so a reduction comes to the same unless the narrower options refuse the
document. -/

namespace PathFold

namespace Json

/-- That others allow all that these options do. -/
structure Options.Within (o wider : Options) : Prop where
  trailingCommas : o.trailingCommas → wider.trailingCommas
  comments : o.comments → wider.comments

/-- What the grammar accepts when it may also accept a closer after a comma. -/
inductive Expect.Loosens : Expect → Expect → Prop
  | refl {expect} : Loosens expect expect
  | value : Loosens .value .valueOrEnd
  | name : Loosens .key .keyOrEnd

namespace Expect.Loosens

variable {expect looser : Expect}

theorem takesValue (h : expect.Loosens looser) (takes : expect.takesValue) :
    looser.takesValue := by
  cases h with
  | refl => exact takes
  | value => rfl
  | name => cases takes

theorem takesName (h : expect.Loosens looser) (takes : expect.takesName) : looser.takesName := by
  cases h with
  | refl => exact takes
  | value => cases takes
  | name => rfl

theorem takesCloser (h : expect.Loosens looser) {kind : ContainerKind}
    (takes : expect.takesCloser kind) : looser.takesCloser kind := by
  cases h with
  | refl => exact takes
  | value | name => cases takes

theorem eq_done (h : expect.Loosens looser) (done : expect = .done) : looser = .done := by
  cases h with
  | refl => exact done
  | value | name => cases done

end Expect.Loosens

theorem Stage.loosens_afterComma {trailing trailing' : Bool} (h : trailing → trailing')
    (kinds : List ContainerKind) :
    (Stage.afterComma trailing kinds).expect.Loosens (Stage.afterComma trailing' kinds).expect := by
  cases trailing with
  | true =>
    rw [h rfl]
    exact .refl
  | false =>
    cases trailing' with
    | false => exact .refl
    | true =>
      cases kinds with
      | nil => exact .value
      | cons kind outer =>
        cases kind with
        | object => exact .name
        | array => exact .value

theorem IsGap.mono {comments comments' : Bool} (wider : comments → comments') {gap : Bytes}
    (h : IsGap comments gap) : IsGap comments' gap := by
  induction h with
  | nil => exact .nil
  | blank blank _ ih => exact .blank blank ih
  | line allowed inside _ ih => exact .line (wider allowed) inside ih
  | block allowed first _ ih => exact .block (wider allowed) first ih

theorem IsLastGap.mono {comments comments' : Bool} (wider : comments → comments') {gap : Bytes}
    (h : IsLastGap comments gap) : IsLastGap comments' gap := by
  cases h with
  | closed gap => exact .closed (gap.mono wider)
  | openLine allowed before inside => exact .openLine (wider allowed) (before.mono wider) inside

/-- What may stand before a lexeme may stand there under wider options, and no less is accepted after
it. -/
theorem Lead.of_wider {o wider : Options} {Last : Bytes → Prop} {stage ready : Stage}
    {passed : Bytes} (h : Lead o Last stage passed ready) (within : o.Within wider) :
    ∃ looser, ready.expect.Loosens looser ∧
      Lead wider Last stage passed ⟨looser, ready.kinds⟩ := by
  cases h with
  | gap last => exact ⟨_, .refl, .gap last⟩
  | colon before last => exact ⟨_, .refl, .colon (before.mono within.comments) last⟩
  | comma before last =>
    exact ⟨_, Stage.loosens_afterComma within.trailingCommas _,
      .comma (before.mono within.comments) last⟩

namespace Tokenizer

/-- The same tokenizer under other options, where another grammar state has been come to. -/
def relaxed (t : Tokenizer) (options : Options) (expect : Expect) : Tokenizer :=
  ⟨options, expect, t.nesting, t.cursor⟩

/-- That a token given by one step is given by another, which leaves the tokenizer the same but for
the options. -/
def Repeats (wider : Options) (step step' : Answer × Tokenizer) : Prop :=
  ∀ token u, step = (.ok (some token), u) → step' = (.ok (some token), u.relaxed wider u.expect)

section Readers

variable {wider : Options} {t : Tokenizer} (looser : Expect)

theorem repeats_refuse {fault : Fault} {step : Answer × Tokenizer} :
    Repeats wider (t.refuse fault) step := by
  rintro _ _ ⟨⟩

theorem repeats_take (kind : TokenKind) (n : Nat) (expect : Expect) (nesting : Nesting) :
    Repeats wider (t.take kind n expect nesting)
      ((t.relaxed wider looser).take kind n expect nesting) := by
  rintro _ _ ⟨⟩
  rfl

theorem repeats_readOpening (kind : ContainerKind) :
    Repeats wider (t.readOpening kind) ((t.relaxed wider looser).readOpening kind) := by
  have nesting : (t.relaxed wider looser).nesting = t.nesting := rfl
  unfold readOpening
  rw [nesting]
  cases t.nesting.enter? kind with
  | none => exact repeats_refuse
  | some inner => exact repeats_take looser _ _ _ _

theorem repeats_readClosing (kind : ContainerKind) :
    Repeats wider (t.readClosing kind) ((t.relaxed wider looser).readClosing kind) := by
  have nesting : (t.relaxed wider looser).nesting = t.nesting := rfl
  unfold readClosing
  rw [nesting]
  split
  · exact repeats_take looser _ _ _ _
  · exact repeats_refuse

theorem repeats_readQuoted (kind : TokenKind) (expect : Expect) :
    Repeats wider (t.readQuoted kind expect) ((t.relaxed wider looser).readQuoted kind expect) := by
  have cursor : (t.relaxed wider looser).cursor = t.cursor := rfl
  unfold readQuoted
  rw [cursor]
  dsimp only
  split
  · rintro _ _ ⟨⟩
    rfl
  · rintro _ _ ⟨⟩
  · rintro _ _ ⟨⟩

theorem repeats_readNumber : Repeats wider t.readNumber (t.relaxed wider looser).readNumber := by
  have cursor : (t.relaxed wider looser).cursor = t.cursor := rfl
  unfold readNumber
  rw [cursor]
  split
  · exact repeats_take looser _ _ _ _
  · exact repeats_refuse

theorem repeats_readLiteral (kind : TokenKind) (word : Bytes) :
    Repeats wider (t.readLiteral kind word) ((t.relaxed wider looser).readLiteral kind word) := by
  have cursor : (t.relaxed wider looser).cursor = t.cursor := rfl
  unfold readLiteral
  rw [cursor]
  split
  · exact repeats_take looser _ _ _ _
  · exact repeats_refuse

theorem repeats_readValue (b : UInt8) :
    Repeats wider (t.readValue b) ((t.relaxed wider looser).readValue b) := by
  unfold readValue
  repeat' split
  · exact repeats_readOpening looser _
  · exact repeats_readOpening looser _
  · exact repeats_readQuoted looser _ _
  · exact repeats_readNumber looser
  · exact repeats_readLiteral looser _ _
  · exact repeats_readLiteral looser _ _
  · exact repeats_readLiteral looser _ _
  · exact repeats_refuse

/-- A lexeme is read alike where the grammar accepts more. -/
theorem repeats_readLexeme (h : t.expect.Loosens looser) :
    Repeats wider t.readLexeme (t.relaxed wider looser).readLexeme := by
  have reads := t.reads_readLexeme
  generalize t.readLexeme = step at reads
  cases reads with
  | finish =>
    unfold readEnd
    split <;> rintro _ _ ⟨⟩
  | closing takes ahead =>
    rw [readLexeme_of_takesCloser (t := t.relaxed wider looser) (h.takesCloser takes) ahead]
    exact repeats_readClosing looser _
  | name takes ahead =>
    rw [readLexeme_of_takesName (t := t.relaxed wider looser) (h.takesName takes) ahead]
    exact repeats_readQuoted looser _ _
  | @value b tail takes ahead =>
    -- The closer that a looser state may accept begins no value.
    by_cases closer : b = 0x5D
    · subst closer
      rintro _ _ ⟨⟩
    · rw [readLexeme_of_takesValue (t := t.relaxed wider looser) (h.takesValue takes) ahead closer]
      exact repeats_readValue looser b
  | refused => exact repeats_refuse

end Readers

section Calls

variable {wider : Options} {t u : Tokenizer}

/-- A call passes the same under wider options, and comes to a lexeme where no less is accepted. -/
theorem Passed.next_of_wider {Last : Bytes → Prop} {passed rest : Bytes} {ready : Tokenizer}
    (h : t.Passed Last passed ready) (within : t.options.Within wider)
    (ahead : t.cursor.rest = passed ++ rest)
    (whole : ∀ gap, Last gap → Gap.ofFront wider.comments (gap ++ rest) = ⟨gap.length, true⟩)
    (stop : ∀ b ∈ rest.head?, b ≠ 0x3A ∧ b ≠ 0x2C) :
    ∃ looser, ready.expect.Loosens looser ∧
      (t.relaxed wider t.expect).next = (ready.relaxed wider looser).readLexeme := by
  obtain ⟨looser, loosens, lead⟩ := h.lead.of_wider within
  obtain ⟨v, call, stage, nesting, options, cursor⟩ :=
    next_of_lead (t := t.relaxed wider t.expect) lead ahead whole stop
  refine ⟨looser, loosens, ?_⟩
  have same : v = ready.relaxed wider looser := by
    obtain ⟨_, expect, _, _⟩ := v
    obtain ⟨rfl, -⟩ := Stage.mk.inj stage
    rw [relaxed, h.nesting, h.cursor]
    cases nesting
    cases options
    cases cursor
    rfl
  rw [call, same]

/-- A call that gives a token gives it under wider options too. -/
theorem next_of_wider (within : t.options.Within wider) :
    Repeats wider t.next (t.relaxed wider t.expect).next := by
  intro token u call
  obtain ⟨passed, rest, ready, ahead, came, read⟩ := passed_of_next call
  obtain ⟨written, took⟩ := took_of_readLexeme read
  obtain ⟨b, tail, rfl, noBlank, noSlash, noColon, noComma⟩ := took.writes.head
  obtain ⟨after, split⟩ := took.ahead
  have here : rest = b :: (tail ++ after) := by
    rw [← List.cons_append, split]
    simp [came.cursor, ahead]
  subst here
  obtain ⟨looser, loosens, same⟩ := came.next_of_wider within ahead
    (fun gap last => Gap.ofFront_of_isGap ((last.2 (List.cons_ne_nil _ _)).mono within.comments)
      (noGapAhead_cons.2 ⟨noBlank, noSlash⟩))
    (by simp [noColon, noComma])
  rw [same]
  exact repeats_readLexeme looser loosens token u read

/-- The end is given under wider options too. -/
theorem end_of_wider (within : t.options.Within wider) (call : t.next = (.ok none, u)) :
    ∃ looser, (t.relaxed wider t.expect).next = (.ok none, u.relaxed wider looser) := by
  obtain ⟨came, stop, whole⟩ := passed_of_end call
  obtain ⟨looser, loosens, same⟩ := came.next_of_wider within (List.append_nil _).symm
    (fun gap last => by
      rw [List.append_nil]
      exact Gap.ofFront_of_isLastGap (last.1.mono within.comments))
    (by simp)
  refine ⟨looser, ?_⟩
  rw [same, readLexeme_of_end (t := u.relaxed wider looser) stop]
  exact readEnd_of_whole fun outside => loosens.eq_done (whole outside)

theorem within_next (within : t.options.Within wider) {answer : Answer}
    (call : t.next = (answer, u)) : u.options.Within wider := by
  have same := t.options_next
  rw [call] at same
  rwa [same]

/-- Every call of a run that is not in error gives the same under wider options. -/
theorem run_of_wider (within : t.options.Within wider) {n : Nat} {answer : Option Token}
    (h : t.run[n]? = some (.ok answer, u)) :
    ∃ looser, (t.relaxed wider t.expect).run[n]? = some (.ok answer, u.relaxed wider looser) := by
  induction t using run.induct generalizing n with
  | case1 t token v call ih =>
    rw [run_of_token call] at h
    rw [run_of_token (next_of_wider within token v call)]
    cases n with
    | zero =>
      cases h
      exact ⟨_, rfl⟩
    | succ n => exact ih (within_next within call) h
  | case2 t answer' v other call =>
    rw [run_of_no_token fun token same => other token (by rwa [call] at same), call] at h
    cases n with
    | succ n => cases h
    | zero =>
      cases h
      cases answer with
      | some token => exact (other token rfl).elim
      | none =>
        obtain ⟨looser, ends⟩ := end_of_wider within call
        rw [run_of_no_token (by simp [ends]), ends]
        exact ⟨looser, rfl⟩

/-- A run up to the end goes the same under wider options. -/
theorem Completes.of_wider {final : Tokenizer} {tokens : List Token} (h : t.Completes tokens final)
    (within : t.options.Within wider) :
    ∃ looser, (t.relaxed wider t.expect).Completes tokens (final.relaxed wider looser) := by
  induction h with
  | last call =>
    obtain ⟨looser, ends⟩ := end_of_wider within call
    exact ⟨looser, .last ends⟩
  | more call _ ih =>
    obtain ⟨looser, completes⟩ := ih (within_next within call)
    exact ⟨looser, .more (next_of_wider within _ _ call) completes⟩

end Calls

end Tokenizer

/-- That a source of tokens gives the same as another, unless the other fails; then it may go on. -/
inductive Feed.Outlasts : Feed → Feed → Prop
  | same {feed} : Outlasts feed feed
  | longer {pulls more error failure} : Outlasts ⟨pulls, some error⟩ ⟨pulls ++ more, failure⟩

theorem Feed.Outlasts.cons {feed longer : Feed} (h : feed.Outlasts longer) (pull : Pull) :
    Feed.Outlasts ⟨pull :: feed.pulls, feed.failure⟩ ⟨pull :: longer.pulls, longer.failure⟩ := by
  cases h with
  | same => exact .same
  | longer => exact .longer

theorem Tokenizer.feed_of_wider {t : Tokenizer} {wider : Options}
    (within : t.options.Within wider) : t.feed.Outlasts (t.relaxed wider t.expect).feed := by
  induction t using run.induct with
  | case1 t token u call ih =>
    rw [feed_of_token call, feed_of_token (next_of_wider within token u call)]
    exact (ih (within_next within call)).cons _
  | case2 t answer u other call =>
    cases answer with
    | error error =>
      rw [feed_of_error call]
      exact .longer
    | ok given =>
      cases given with
      | some token => exact (other token rfl).elim
      | none =>
        obtain ⟨looser, ends⟩ := end_of_wider within call
        rw [feed_of_end call, feed_of_end ends]
        exact .same

end Json

open PathFold.Json

variable {α : Type}

/-- A walk comes to the same if its source goes on where it fails, or is malformed as the source
says. -/
theorem Walk.run_of_outlasts (set : RuleSet α) (walk : Walk α) {feed longer : Feed}
    (h : feed.Outlasts longer) :
    (∃ error, (walk.run set feed.failure feed.pulls).result = .error (.malformed error)) ∨
      (walk.run set longer.failure longer.pulls).result =
        (walk.run set feed.failure feed.pulls).result := by
  cases h with
  | same => exact .inr rfl
  | @longer pulls more error failure =>
    induction pulls generalizing walk with
    | nil => exact .inl ⟨error, rfl⟩
    | cons pull pulls ih =>
      simp only [List.cons_append, run]
      cases walk.step set pull with
      | error error => exact .inr rfl
      | ok stepped => exact ih stepped.1

namespace Reducer

/-- What is built under some options can be built under any, with the same rules. -/
theorem build_of_options {maxDepth : Nat} {options : Options} {initial : α} {rules : List (Rule α)}
    {reducer : Reducer α} (built : build ⟨maxDepth, options⟩ initial rules = .ok reducer)
    (other : Options) : ∃ set, reducer = ⟨set, initial, ⟨maxDepth, options⟩⟩ ∧
      build ⟨maxDepth, other⟩ initial rules = .ok ⟨set, initial, ⟨maxDepth, other⟩⟩ := by
  have valid : (⟨maxDepth, other⟩ : Config).validate = (⟨maxDepth, options⟩ : Config).validate := rfl
  unfold build at built ⊢
  rw [valid]
  cases checked : (⟨maxDepth, options⟩ : Config).validate with
  | error error =>
    rw [checked] at built
    cases built
  | ok =>
    rw [checked] at built
    dsimp only at built ⊢
    cases compiled : RuleSet.compile rules maxDepth with
    | error error =>
      rw [compiled] at built
      cases built
    | ok set =>
      rw [compiled] at built
      cases built
      exact ⟨set, rfl, rfl⟩

/-- Leniency only adds. Whatever the input, the calls that are not in error give the same under wider
options and leave the cursor and the depth the same, up to the end if it is come to; so any rules
reduce the input to the same under both, unless it is malformed under the narrower options. -/
theorem outcome_of_wider {o wider : Options} (within : o.Within wider) (input : Bytes) :
    let run := (Tokenizer.start o input).run
    let run' := (Tokenizer.start wider input).run
    (∀ (n : Nat) (answer : Option Token) (t : Tokenizer), run[n]? = some (.ok answer, t) →
      ∃ t', run'[n]? = some (.ok answer, t') ∧ t'.position = t.position ∧ t'.depth = t.depth) ∧
    (∀ t, run.getLast? = some (.ok none, t) → ∃ t', run'.getLast? = some (.ok none, t')) ∧
    ∀ (α : Type) (maxDepth : Nat) (initial : α) (rules : List (Rule α)) (reducer : Reducer α),
      build ⟨maxDepth, o⟩ initial rules = .ok reducer →
      ∃ reducer', build ⟨maxDepth, wider⟩ initial rules = .ok reducer' ∧
        reducer'.initial = reducer.initial ∧
        ∀ aggregate, (∀ error, reducer.processWith input aggregate ≠ .error (.malformed error)) →
          reducer'.processWith input aggregate = reducer.processWith input aggregate := by
  intro run run'
  have relaxed : (Tokenizer.start o input).relaxed wider .value = Tokenizer.start wider input := rfl
  refine ⟨fun n answer t call => ?_, fun t ends => ?_, ?_⟩
  · obtain ⟨looser, same⟩ := Tokenizer.run_of_wider within call
    exact ⟨_, same, rfl, rfl⟩
  · obtain ⟨looser, completes⟩ := (Tokenizer.completes_of_run ends).of_wider within
    exact ⟨_, completes.run.1⟩
  · intro α maxDepth initial rules reducer built
    obtain ⟨set, rfl, built'⟩ := build_of_options built wider
    refine ⟨_, built', rfl, fun aggregate sound => ?_⟩
    have outlasts := Tokenizer.feed_of_wider (t := .start o input) within
    rcases (Walk.start maxDepth aggregate).run_of_outlasts set outlasts with ⟨error, refused⟩ | same
    · exact (sound error refused).elim
    · exact same

/-- The cut-off document `[0,`, under strict options and under lenient ones. -/
theorem outcome_of_wider_cut_off :
    let count : Rule Nat := ⟨[.container .object], none, none, fun _ _ _ n => ⟨n + 1, []⟩⟩
    Options.strict.Within .lenient ∧ ∃ reducer, build ⟨1, .lenient⟩ 0 [count] = .ok reducer ∧
      reducer.processWith [0x5B, 0x30, 0x2C] 5 = .error (.truncatedDocument 1) := by
  intro count
  have within : Options.strict.Within .lenient := ⟨fun _ => rfl, fun _ => rfl⟩
  obtain ⟨narrow, built⟩ : ∃ narrow, build ⟨1, .strict⟩ 0 [count] = .ok narrow := ⟨_, rfl⟩
  obtain ⟨-, -, reducers⟩ := outcome_of_wider within [0x5B, 0x30, 0x2C]
  obtain ⟨wide, built', -, same⟩ := reducers Nat 1 0 [count] narrow built
  have tokens : (Tokenizer.start .strict [0x5B, 0x30, 0x2C]).feed =
      ⟨[⟨⟨.opening .array, [0x5B], 0, 1, false⟩, 1⟩, ⟨⟨.number, [0x30], 1, 2, false⟩, 1⟩],
        none⟩ := by decide +kernel
  have cut : narrow.processWith [0x5B, 0x30, 0x2C] 5 = .error (.truncatedDocument 1) := by
    cases built
    exact congrArg (processTokens _ · 5) tokens
  refine ⟨within, wide, built', (same 5 fun error malformed => ?_).trans cut⟩
  rw [cut] at malformed
  cases malformed

end Reducer

end PathFold
