import PathFold.Proofs.Layout.Trail
import PathFold.Proofs.Layout.Tree

/-! Where tokens stand. Every token is written at its span, spans follow each other without overlap,
and what is left between two of them is a gap or one separator between two gaps. -/

namespace PathFold.Json

/-- The bytes that write a lexeme. -/
def Lexeme.written (lexeme : Lexeme) : Bytes :=
  match lexeme.kind with
  | .string | .propertyName => quoted lexeme.raw
  | _ => lexeme.raw

theorem Writes.eq_written {stage next : Stage} {written : Bytes} {lexeme : Lexeme}
    (h : Writes stage written lexeme next) : written = lexeme.written := by
  cases h with
  | opening | closing | name => rfl
  | scalar _ scalar => cases scalar <;> rfl

/-- That a token is the last of a value: a scalar or the closer of a container. -/
def TokenKind.endsValue : TokenKind → Bool
  | .opening _ | .propertyName => false
  | _ => true

/-- The bytes that may stand between the token before, if there is one, and a token of this kind. A
comma stands inside a container only, and after a whole entry. -/
inductive Between (o : Options) : Option Pull → TokenKind → Bytes → Prop
  | first {kind gap} : IsGap o.comments gap → Between o none kind gap
  | opened {before container kind gap} : before.token.kind = .opening container →
      IsGap o.comments gap → Between o (some before) kind gap
  | named {before kind gap last} : before.token.kind = .propertyName → IsGap o.comments gap →
      IsGap o.comments last → Between o (some before) kind (gap ++ 0x3A :: last)
  | parted {before kind gap last} : before.token.kind.endsValue → 0 < before.depth →
      (∀ container, kind ≠ .closing container) → IsGap o.comments gap →
      IsGap o.comments last → Between o (some before) kind (gap ++ 0x2C :: last)
  | closed {before container gap} : before.token.kind.endsValue → 0 < before.depth →
      IsGap o.comments gap → Between o (some before) (.closing container) gap
  | trailing {before container gap last} : before.token.kind.endsValue → 0 < before.depth →
      o.trailingCommas → IsGap o.comments gap → IsGap o.comments last →
      Between o (some before) (.closing container) (gap ++ 0x2C :: last)

/-- Where the token before has ended, or the start of the input. -/
def stopOf (previous : Option Pull) : Nat := (previous.map (·.token.stop)).getD 0

/-- That a token follows the token before in the input. -/
structure Placed (o : Options) (input : Bytes) (previous : Option Pull) (pull : Pull) : Prop where
  after : stopOf previous ≤ pull.token.start
  nonempty : pull.token.start < pull.token.stop
  within : pull.token.stop ≤ input.length
  written : input.extract pull.token.start pull.token.stop = pull.token.lexeme.written
  between : Between o previous pull.token.kind (input.extract (stopOf previous) pull.token.start)

/-- The stage right after a token, or at the start. -/
inductive Stage.Succeeds : Option TokenKind → Stage → Prop
  | first : Succeeds none .start
  | opening (container : ContainerKind) (kinds : List ContainerKind) :
      Succeeds (some (.opening container)) (.inside container kinds)
  | name (kinds : List ContainerKind) : Succeeds (some .propertyName) ⟨.colon, kinds⟩
  | value {kind : TokenKind} (kinds : List ContainerKind) : kind.endsValue →
      Succeeds (some kind) (.afterValue kinds)

theorem Writes.succeeds {stage next : Stage} {written : Bytes} {lexeme : Lexeme}
    (h : Writes stage written lexeme next) : next.Succeeds (some lexeme.kind) := by
  cases h with
  | opening kind => exact .opening kind _
  | closing => exact .value _ rfl
  | scalar _ scalar => cases scalar <;> exact .value _ rfl
  | name => exact .name _

/-- A closer that is taken after a comma is one that the options allow there. -/
theorem Writes.trailing_of_closing {trailing : Bool} {kinds : List ContainerKind}
    {written : Bytes} {lexeme : Lexeme} {next : Stage} {container : ContainerKind}
    (h : Writes (.afterComma trailing kinds) written lexeme next)
    (closing : lexeme.kind = .closing container) : trailing := by
  generalize stage : Stage.afterComma trailing kinds = s at h
  cases h with
  | @closing expect outer kind takes =>
    obtain rfl : kinds = kind :: outer := congrArg Stage.kinds stage
    have here : (Stage.afterComma trailing (kind :: outer)).expect.takesCloser kind := by
      rwa [stage]
    exact Stage.trailing_of_takesCloser here
  | scalar _ scalar => cases scalar <;> cases closing
  | opening | name => cases closing

namespace Stage.Succeeds

theorem of_colon {previous : Option TokenKind} {kinds : List ContainerKind}
    (h : Succeeds previous ⟨.colon, kinds⟩) : previous = some .propertyName := by
  generalize stage : (⟨.colon, kinds⟩ : Stage) = s at h
  cases h with
  | first => cases stage
  | opening container => cases container <;> cases stage
  | name => rfl
  | value => exact absurd stage.symm (Stage.afterValue_ne (by simp) (by simp))

theorem of_commaOrEnd {previous : Option TokenKind} {kinds : List ContainerKind}
    (h : Succeeds previous ⟨.commaOrEnd, kinds⟩) :
    ∃ kind, previous = some kind ∧ kind.endsValue ∧ kinds ≠ [] := by
  generalize stage : (⟨.commaOrEnd, kinds⟩ : Stage) = s at h
  cases h with
  | first => cases stage
  | opening container => cases container <;> cases stage
  | name => cases stage
  | @value kind outer ends =>
    obtain rfl : kinds = outer := congrArg Stage.kinds stage
    refine ⟨kind, rfl, ends, ?_⟩
    rintro rfl
    cases stage

end Stage.Succeeds

/-- The lead of a lexeme is what may stand between it and the token before. -/
theorem Lead.between {o : Options} {previous : Option Pull} {stage ready next : Stage}
    {lead written : Bytes} {lexeme : Lexeme}
    (succeeds : stage.Succeeds (previous.map (·.token.kind)))
    (depth : ∀ pull ∈ previous, pull.depth = stage.kinds.length)
    (h : Lead o (IsGap o.comments) stage lead ready) (writes : Writes ready written lexeme next) :
    Between o previous lexeme.kind lead := by
  cases h with
  | gap gap =>
    cases previous with
    | none => exact .first gap
    | some before =>
      replace succeeds : stage.Succeeds (some before.token.kind) := succeeds
      generalize kind : before.token.kind = ended at succeeds
      cases succeeds with
      | opening => exact .opened kind gap
      | name =>
        cases writes with
        | opening _ takes | closing takes | scalar takes | name takes => cases takes
      | value kinds ends =>
        obtain ⟨container, outer, rfl, -, rfl, -⟩ := writes.of_afterValue
        refine .closed (kind ▸ ends) ?_ gap
        rw [depth before rfl]
        exact Nat.succ_pos _
  | colon gap last =>
    obtain ⟨before, rfl, kind⟩ := Option.map_eq_some_iff.1 succeeds.of_colon
    exact .named kind gap last
  | comma gap last =>
    obtain ⟨_, same, ends, inside⟩ := succeeds.of_commaOrEnd
    obtain ⟨before, rfl, rfl⟩ := Option.map_eq_some_iff.1 same
    have entered : 0 < before.depth := by
      rw [depth before rfl]
      exact List.length_pos_iff.2 inside
    cases kind : lexeme.kind with
    | closing container =>
      exact .trailing ends entered (writes.trailing_of_closing kind) gap last
    | _ => exact .parted ends entered (by simp) gap last

namespace Tokenizer

/-- That a tokenizer stands right after a token of the input, or at the start. -/
structure Follows (o : Options) (input : Bytes) (previous : Option Pull) (t : Tokenizer) :
    Prop where
  options : t.options = o
  input : t.cursor.input = input
  position : t.position = stopOf previous
  stage : t.stage.Succeeds (previous.map (·.token.kind))
  depth : ∀ pull ∈ previous, pull.depth = t.depth

theorem follows_start (o : Options) (input : Bytes) : (start o input).Follows o input none :=
  ⟨rfl, rfl, rfl, .first, by simp⟩

/-- The next token follows the token before, and the tokenizer after it follows the next token. -/
theorem Follows.next {o : Options} {input : Bytes} {previous : Option Pull} {t u : Tokenizer}
    {token : Token} (h : t.Follows o input previous) (call : t.next = (.ok (some token), u)) :
    Placed o input previous ⟨token, u.depth⟩ ∧ u.Follows o input (some ⟨token, u.depth⟩) := by
  obtain ⟨passed, ready, written, ahead, came, took⟩ := took_of_next call
  obtain ⟨start, stop, there⟩ := span_of_took came took
  have rest : t.cursor.rest = input.drop t.position := by
    rw [t.rest_eq_drop, h.input]
  have same := took.writes.eq_written
  have some : 0 < written.length := by
    obtain ⟨b, tail, rfl, -⟩ := took.writes.head
    exact Nat.succ_pos _
  have lead : input.extract t.position token.start = passed := by
    rw [List.extract_eq_take_drop, ← rest, ahead, start, Nat.add_sub_cancel_left, List.take_left]
  have span : input.extract token.start token.stop = written := by
    rw [List.extract_eq_take_drop, start, ← List.drop_drop, ← rest, ahead, List.drop_left, stop,
      start, Nat.add_sub_cancel_left, List.take_left]
  have within : token.stop ≤ input.length := by
    have lengths := congrArg List.length (rest.symm.trans ahead)
    simp only [List.length_drop, List.length_append] at lengths
    omega
  have depth : ∀ pull ∈ previous, pull.depth = t.stage.kinds.length := by
    rw [length_stage]
    exact h.depth
  have between := (h.options ▸ came.lead).between h.stage depth took.writes
  refine ⟨⟨?_, ?_, within, ?_, ?_⟩, ?_, ?_, there, took.writes.succeeds, ?_⟩
  · rw [← h.position, start]
    exact Nat.le_add_right _ _
  · exact stop ▸ Nat.lt_add_of_pos_right some
  · exact span.trans same
  · rw [← h.position]
    exact lead ▸ between
  · rw [took.options, came.options, h.options]
  · rw [← h.input, ← input_next t, call]
  · rintro _ ⟨⟩
    rfl

/-- Every token of a run follows the one before it. -/
theorem Follows.placed {o : Options} {input : Bytes} {previous : Option Pull} {t : Tokenizer}
    (h : t.Follows o input previous) {before after : List Pull} {pull : Pull}
    (split : t.feed.pulls = before ++ pull :: after) :
    Placed o input (previous.toList ++ before).getLast? pull := by
  induction t using run.induct generalizing previous before with
  | case1 t token u call ih =>
    obtain ⟨placed, follows⟩ := h.next call
    rw [feed_of_token call] at split
    cases before with
    | nil =>
      obtain ⟨rfl, -⟩ := List.cons.inj split
      cases previous <;> exact placed
    | cons first before =>
      obtain ⟨rfl, rest⟩ := List.cons.inj split
      have later := ih follows rest
      rw [List.getLast?_append, List.getLast?_cons, Option.some_or, ← List.getLast?_cons]
      exact later
  | case2 t answer u other call =>
    rw [pulls_of_no_token (by simpa [call] using other)] at split
    simp at split

end Tokenizer

/-- Every byte up to the last token belongs to one token, to a gap or to a separator that stands
where the grammar asks for it. Tokens follow each other without overlap, each is written at its
span, and the tokenizer stands at the end of a token that it has just given. -/
theorem tokens_account_for_input (o : Options) (input : Bytes) :
    (∀ before pull after, (Tokenizer.start o input).feed.pulls = before ++ pull :: after →
      Placed o input before.getLast? pull) ∧
    ∀ token u, (.ok (some token), u) ∈ (Tokenizer.start o input).run → u.position = token.stop := by
  refine ⟨fun before pull after split => (Tokenizer.follows_start o input).placed split,
    fun token u step => ?_⟩
  obtain ⟨t, call⟩ := Tokenizer.exists_next_of_mem_run step
  exact Tokenizer.position_of_next call

end PathFold.Json
