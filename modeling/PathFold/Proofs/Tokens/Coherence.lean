import PathFold.Proofs.Layout.Growth
import PathFold.Proofs.Layout.Tree

/-! The grammar state of the tokenizer against the containers that are open. The tokens given so far
tell which they are, and after any calls, in error or not, the depth, the bits and what the grammar
accepts next agree with them. So only a closer of the wrong kind is ever refused as one. -/

namespace PathFold.Json

variable {o : Options}

/-- The open containers after a token, root first, if it closes no other than the innermost. -/
def openAfter? (opened : List ContainerKind) : TokenKind → Option (List ContainerKind)
  | .opening kind => some (opened ++ [kind])
  | .closing kind => if opened.getLast? = some kind then some opened.dropLast else none
  | .propertyName | .string | .number | .boolean _ | .null => some opened

/-- The containers that tokens have opened and not closed, root first, if each closer among them
closes the innermost. -/
def openedBy? (tokens : List Token) : Option (List ContainerKind) :=
  (tokens.map (·.kind)).foldlM openAfter? []

theorem Writes.openAfter? {stage next : Stage} {written : Bytes} {lexeme : Lexeme}
    (h : Writes stage written lexeme next) :
    Json.openAfter? stage.kinds.reverse lexeme.kind = some next.kinds.reverse := by
  cases h with
  | opening kind => simp [Json.openAfter?, Lexeme.opening, Stage.inside]
  | closing => simp [Json.openAfter?, Lexeme.closing, Stage.afterValue]
  | scalar _ scalar => cases scalar <;> rfl
  | name => rfl

theorem Writes.expect_ne_done {stage next : Stage} {written : Bytes} {lexeme : Lexeme}
    (h : Writes stage written lexeme next) : stage.expect ≠ .done := by
  cases h with
  | opening _ takes | closing takes | scalar takes | name takes =>
    rintro rfl
    cases takes

theorem Layout.foldlM_openAfter? {stage final : Stage} {bytes : Bytes} {lexemes : List Lexeme}
    (h : Layout o stage bytes lexemes final) :
    (lexemes.map (·.kind)).foldlM openAfter? stage.kinds.reverse = some final.kinds.reverse := by
  induction h with
  | last lead => exact congrArg (some ·.reverse) lead.kinds.symm
  | more lead writes _ ih =>
    rw [List.map_cons, List.foldlM_cons, ← lead.kinds, writes.openAfter?]
    exact ih

/-- The stages that can be come to when these lexemes have been read. -/
inductive Stage.Possible (o : Options) (lexemes : List Lexeme) : Stage → Prop
  | start : lexemes = [] → Possible o lexemes .start
  | value (kind : ContainerKind) (kinds : List ContainerKind) :
      Possible o lexemes ⟨.value, kind :: kinds⟩
  | valueOrEnd (kinds : List ContainerKind) : Possible o lexemes ⟨.valueOrEnd, .array :: kinds⟩
  | keyOrEnd (kinds : List ContainerKind) : Possible o lexemes ⟨.keyOrEnd, .object :: kinds⟩
  | key (kinds : List ContainerKind) : o.trailingCommas = false →
      Possible o lexemes ⟨.key, .object :: kinds⟩
  | colon (kinds : List ContainerKind) : Possible o lexemes ⟨.colon, .object :: kinds⟩
  | commaOrEnd (kind : ContainerKind) (kinds : List ContainerKind) :
      Possible o lexemes ⟨.commaOrEnd, kind :: kinds⟩
  | done : Possible o lexemes ⟨.done, []⟩

namespace Stage.Possible

variable {lexemes : List Lexeme} {stage ready : Stage}

theorem afterComma (kind : ContainerKind) (kinds : List ContainerKind) :
    Possible o lexemes (.afterComma o.trailingCommas (kind :: kinds)) := by
  cases trailing : o.trailingCommas with
  | true =>
    cases kind with
    | object => exact .keyOrEnd kinds
    | array => exact .valueOrEnd kinds
  | false =>
    cases kind with
    | object => exact .key kinds trailing
    | array => exact .value .array kinds

theorem after_lead {Last : Bytes → Prop} {lead : Bytes} (h : stage.Possible o lexemes)
    (passed : Lead o Last stage lead ready) : ready.Possible o lexemes := by
  cases passed with
  | gap => exact h
  | colon =>
    cases h with
    | colon kinds => exact .value .object kinds
  | comma =>
    cases h with
    | commaOrEnd kind kinds => exact .afterComma kind kinds

theorem after_writes {written : Bytes} {lexeme : Lexeme} {next : Stage}
    (h : stage.Possible o lexemes) (writes : Writes stage written lexeme next)
    (more : List Lexeme) : next.Possible o more := by
  have whole (kinds : List ContainerKind) : (Stage.afterValue kinds).Possible o more := by
    cases kinds with
    | nil => exact .done
    | cons kind kinds => exact .commaOrEnd kind kinds
  cases writes with
  | opening kind =>
    cases kind with
    | object => exact .keyOrEnd _
    | array => exact .valueOrEnd _
  | closing | scalar => exact whole _
  | name takes =>
    cases h with
    | keyOrEnd kinds | key kinds => exact .colon kinds
    | start | value | valueOrEnd | colon | commaOrEnd | done => cases takes

variable {expect : Expect} {kinds : List ContainerKind}

theorem head_object (h : Possible o lexemes ⟨expect, kinds⟩)
    (asks : expect = .keyOrEnd ∨ expect = .key ∨ expect = .colon) : kinds.head? = some .object := by
  cases h with
  | keyOrEnd | key | colon => rfl
  | start | value | valueOrEnd | commaOrEnd | done => simp at asks

theorem head_array (h : Possible o lexemes ⟨.valueOrEnd, kinds⟩) : kinds.head? = some .array := by
  cases h
  rfl

theorem ne_nil (h : Possible o lexemes ⟨.commaOrEnd, kinds⟩) : kinds ≠ [] := by
  cases h
  exact List.cons_ne_nil _ _

theorem strict (h : Possible o lexemes ⟨.key, kinds⟩) : o.trailingCommas = false := by
  cases h
  assumption

theorem fresh (h : Possible o lexemes ⟨.value, []⟩) : lexemes = [] := by
  cases h
  assumption

theorem outside (h : Possible o lexemes ⟨.done, kinds⟩) : kinds = [] := by
  cases h
  rfl

/-- A closer is read only inside a container, and of another kind only after a whole value. -/
theorem takesCloser {other : ContainerKind} (h : Possible o lexemes ⟨expect, kinds⟩)
    (takes : expect.takesCloser other) :
    ∃ kind outer, kinds = kind :: outer ∧ (other ≠ kind → expect = .commaOrEnd) := by
  cases h with
  | valueOrEnd outer =>
    refine ⟨.array, outer, rfl, fun differ => ?_⟩
    cases other with
    | array => exact absurd rfl differ
    | object => cases takes
  | keyOrEnd outer =>
    refine ⟨.object, outer, rfl, fun differ => ?_⟩
    cases other with
    | array => cases takes
    | object => exact absurd rfl differ
  | commaOrEnd kind outer => exact ⟨kind, outer, rfl, fun _ => rfl⟩
  | start | value | key | colon | done => cases takes

end Stage.Possible

theorem Layout.possible_of {stage final : Stage} {bytes : Bytes} {before lexemes : List Lexeme}
    (h : Layout o stage bytes lexemes final) (possible : stage.Possible o before) :
    final.Possible o (before ++ lexemes) := by
  induction h generalizing before with
  | last lead =>
    rw [List.append_nil]
    exact possible.after_lead lead
  | @more _ _ _ _ lexeme _ _ _ _ lead writes _ ih =>
    have next := (possible.after_lead lead).after_writes writes (before ++ [lexeme])
    simpa using ih next

theorem Layout.possible {final : Stage} {bytes : Bytes} {lexemes : List Lexeme}
    (h : Layout o .start bytes lexemes final) : final.Possible o lexemes := by
  have start : Stage.start.Possible o [] := .start rfl
  exact h.possible_of start

namespace Tokenizer

/-- That the state of a tokenizer fits the tokens it has given and the containers they have left open,
root first. -/
structure Coherent (t : Tokenizer) (o : Options) (tokens : List Token)
    (opened : List ContainerKind) : Prop where
  depth : t.depth = opened.length
  bits : ∀ level < opened.length,
    (t.nesting.bits.getLsbD level = true ↔ opened[level]? = some .object)
  complete : t.expect = .done → opened = [] ∧ ∃ tree document, IsDocument o tree document ∧
    tree.lexemes = tokens.map (·.lexeme)
  inObject : t.expect = .keyOrEnd ∨ t.expect = .key ∨ t.expect = .colon →
    opened.getLast? = some .object
  inArray : t.expect = .valueOrEnd → opened.getLast? = some .array
  inside : t.expect = .commaOrEnd → opened ≠ []
  strict : t.expect = .key → o.trailingCommas = false
  fresh : t.expect = .value → opened = [] → tokens = []

theorem bits_iff (nesting : Nesting) {level : Nat} (within : level < nesting.kinds.length) :
    nesting.bits.getLsbD level = true ↔ nesting.kinds[level]? = some .object := by
  rw [Nesting.length_kinds] at within
  have kind : nesting.kinds[level]? = some (nesting.kindAt level) := by
    simp [Nesting.kinds, within]
  rw [kind, Nesting.kindAt]
  cases nesting.bits.getLsbD level <;> simp

theorem coherent_of_layout {t : Tokenizer} {tokens : List Token} {bytes : Bytes}
    (layout : Layout o .start bytes (tokens.map (·.lexeme)) t.stage) :
    t.Coherent o tokens t.nesting.kinds := by
  have possible : t.stage.Possible o (tokens.map (·.lexeme)) := layout.possible
  have innermost : t.nesting.kinds.getLast? = t.nesting.inward.head? := by
    rw [← Nesting.innermost?_eq, Nesting.innermost?_eq_head?]
  have root : t.nesting.kinds = [] ↔ t.nesting.inward = [] := List.reverse_eq_nil_iff.symm
  rw [stage] at possible
  refine ⟨t.nesting.length_kinds.symm, fun _ => bits_iff t.nesting, fun done => ?_, fun asks => ?_,
    fun asks => ?_, fun asks => ?_, fun asks => ?_, fun asks outside => ?_⟩
  · rw [done] at possible
    rw [stage, done, possible.outside] at layout
    obtain ⟨tree, document, lexemes⟩ := layout.isDocument
    exact ⟨root.2 possible.outside, tree, bytes, document, lexemes⟩
  · exact innermost.trans (possible.head_object asks)
  · rw [asks] at possible
    exact innermost.trans possible.head_array
  · rw [asks] at possible
    exact fun outside => possible.ne_nil (root.1 outside)
  · rw [asks] at possible
    exact possible.strict
  · rw [asks, root.1 outside] at possible
    exact List.map_eq_nil_iff.1 possible.fresh

/-- Once the document is over it stays so. -/
theorem done_next {t : Tokenizer} (done : t.expect = .done) : t.next.2.expect = .done := by
  have lead_done {Last : Bytes → Prop} {passed : Bytes} {ready : Stage}
      (lead : Lead t.options Last t.stage passed ready) : ready.expect = .done := by
    generalize stage : t.stage = s at lead
    cases lead with
    | gap =>
      rw [← stage]
      exact done
    | colon | comma => cases done.symm.trans (congrArg Stage.expect stage)
  cases answer : tokenOf t.next.1 with
  | none =>
    obtain ⟨passed, lead⟩ := lead_of_no_token answer
    exact lead_done lead
  | some token =>
    obtain ⟨passed, ready, written, -, came, took⟩ := took_of_next (step_of_tokenOf answer)
    exact absurd (lead_done came.lead) took.writes.expect_ne_done

theorem done_after {t : Tokenizer} {m n : Nat} (done : (t.after m).expect = .done) (le : m ≤ n) :
    (t.after n).expect = .done := by
  induction le with
  | refl => exact done
  | step _ ih => exact done_next ih

theorem mismatched_of_readLexeme {t : Tokenizer} {lexemes : List Lexeme} {position : Nat}
    (possible : t.stage.Possible o lexemes)
    (refused : t.readLexeme.1 = .error ⟨.mismatchedClose, position⟩) :
    t.expect = .commaOrEnd ∧ position = t.position ∧ ∃ kind other outer tail,
      t.nesting.inward = kind :: outer ∧ other ≠ kind ∧ t.cursor.rest = other.closer :: tail := by
  obtain ⟨other, tail, takes, ahead, innermost, place⟩ := closer_of_readLexeme refused
  obtain ⟨kind, outer, inward, comma⟩ := possible.takesCloser takes
  have differ : other ≠ kind := by
    rintro rfl
    rw [Nesting.innermost?_eq_head?, inward] at innermost
    exact innermost rfl
  exact ⟨comma differ, place, kind, other, outer, tail, inward, differ, ahead⟩

/-- A closer is refused only if it stands right after a value in a container of another kind. -/
theorem mismatched_iff {t : Tokenizer} {lexemes : List Lexeme}
    (possible : t.stage.Possible t.options lexemes) (position : Nat) :
    t.next.1 = .error ⟨.mismatchedClose, position⟩ ↔
      t.expect = .commaOrEnd ∧ ∃ gap kind other outer rest,
        t.nesting.inward = kind :: outer ∧ other ≠ kind ∧ IsGap t.options.comments gap ∧
        t.cursor.rest = gap ++ ContainerKind.closer other :: rest ∧
        position = t.position + gap.length := by
  constructor
  · intro refused
    rcases t.next_cases with ⟨passed, rest, ready, ahead, came, call⟩ | ⟨ready, -, call⟩
    · rw [call] at refused
      obtain ⟨comma, rfl, kind, other, outer, tail, inward, differ, here⟩ :=
        mismatched_of_readLexeme (possible.after_lead came.lead) refused
      have rest_eq : rest = other.closer :: tail := by
        rw [← here]
        simp [came.cursor, ahead]
      have lead := came.lead
      generalize stage : t.stage = s at lead
      generalize there : ready.stage = s' at lead
      cases lead with
      | gap gap =>
        have same : t.expect = ready.expect := congrArg Stage.expect (stage.trans there.symm)
        refine ⟨same.trans comma, passed, kind, other, outer, tail, ?_, differ, gap.2 ?_, ?_, ?_⟩
        · rw [← came.nesting, inward]
        · rw [rest_eq]
          exact List.cons_ne_nil _ _
        · rw [ahead, rest_eq]
        · rw [Tokenizer.position, came.cursor]
          rfl
      | colon => cases comma.symm.trans (congrArg Stage.expect there)
      | comma =>
        have after : Stage.afterComma _ _ = ⟨.commaOrEnd, ready.nesting.inward⟩ :=
          there.symm.trans (congrArg (Stage.mk · _) comma)
        exact absurd after (Stage.afterComma_ne (.inr rfl))
    · rw [call] at refused
      cases refused
  · rintro ⟨comma, gap, kind, other, outer, rest, inward, differ, blank, ahead, rfl⟩
    have stop : NoGapAhead (other.closer :: rest) := noGapAhead_cons.2 (by cases other <;> decide)
    have lead : Lead t.options (IsGap t.options.comments) t.stage gap t.stage := .gap blank
    obtain ⟨u, call, stage, nesting, -, cursor⟩ := next_of_lead lead ahead
      (fun _ last => Gap.ofFront_of_isGap last stop) (by cases other <;> simp [ContainerKind.closer])
    have here : u.cursor.rest = [other.closer] ++ rest := by simp [cursor, ahead]
    have takes : u.expect.takesCloser other := by
      rw [show u.expect = t.expect from congrArg Stage.expect stage, comma]
      rfl
    have innermost : u.nesting.innermost? ≠ some other := by
      rw [nesting, Nesting.innermost?_eq_head?, inward]
      exact fun same => differ (Option.some.inj same).symm
    rw [call, readLexeme_of_takesCloser takes here, readClosing, if_neg innermost]
    have place : u.position = t.position + gap.length := by
      rw [Tokenizer.position, cursor]
      rfl
    rw [refuse, place]

/-- After any calls the state of the tokenizer fits the tokens given so far. The document once it is
over stays so, and a closer is refused only where it stands, after a whole value, in a container of
another kind. -/
theorem coherent_after (o : Options) (input : Bytes) (n : Nat) :
    let t := (start o input).after n
    let tokens := (start o input).given n
    ∃ opened, openedBy? tokens = some opened ∧ t.Coherent o tokens opened ∧
      (t.expect = .done → ∀ m ≥ n, ((start o input).after m).expect = .done) ∧
      ∀ position, t.next.1 = .error ⟨.mismatchedClose, position⟩ ↔
        t.expect = .commaOrEnd ∧ ∃ gap kind other outer rest,
          opened = outer ++ [kind] ∧ other ≠ kind ∧ IsGap o.comments gap ∧
          t.cursor.rest = gap ++ ContainerKind.closer other :: rest ∧
          position = t.position + gap.length := by
  intro t tokens
  obtain ⟨bytes, layout⟩ := layout_after o input n
  have options : t.options = o := options_after o input n
  have possible : t.stage.Possible t.options (tokens.map (·.lexeme)) :=
    options.symm ▸ layout.possible
  have root : t.nesting.inward.reverse = t.nesting.kinds := List.reverse_reverse _
  refine ⟨t.nesting.kinds, ?_, coherent_of_layout layout, fun done m le => done_after done le,
    fun position => ?_⟩
  · have opened := layout.foldlM_openAfter?
    rw [List.map_map] at opened
    exact opened.trans (congrArg some root)
  · rw [mismatched_iff possible, options, ← root]
    constructor
    · rintro ⟨comma, gap, kind, other, outer, rest, inward, met⟩
      exact ⟨comma, gap, kind, other, outer.reverse, rest, by rw [inward, List.reverse_cons], met⟩
    · rintro ⟨comma, gap, kind, other, outer, rest, inward, met⟩
      have inward := List.reverse_eq_iff.1 inward
      rw [List.reverse_append] at inward
      exact ⟨comma, gap, kind, other, outer.reverse, rest, inward, met⟩

/-- In `[1}` the closer is of the wrong kind, and the array stays open. -/
example : (start .strict [0x5B, 0x31, 0x7D]).feed.failure = some ⟨.mismatchedClose, 2⟩ ∧
    openedBy? ((start .strict [0x5B, 0x31, 0x7D]).given 3) = some [.array] := by
  decide +kernel

end Tokenizer

end PathFold.Json
