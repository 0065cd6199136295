import PathFold.Json.Tokenizer.Cases
import PathFold.Proofs.Grammar.Document
import PathFold.Proofs.Grammar.Gap
import PathFold.Proofs.Grammar.Numeral

/-! Layouts. A layout says how bytes are made up of gaps, separators and lexemes, one lexeme after
the other, with what the grammar accepts next kept as a stage. It stands between the calls of the
tokenizer, which it follows step by step, and the grammar of documents, of which it is the flat
form. -/

namespace PathFold.Json

/-- What the grammar accepts next, and the kinds of the open containers, innermost first. -/
structure Stage where
  expect : Expect
  kinds : List ContainerKind
  deriving DecidableEq, Repr

namespace Stage

def start : Stage := ⟨.value, []⟩

/-- After a whole value inside these containers. -/
def afterValue (kinds : List ContainerKind) : Stage :=
  ⟨if kinds = [] then .done else .commaOrEnd, kinds⟩

/-- Right after the opener of a container. -/
def inside (kind : ContainerKind) (kinds : List ContainerKind) : Stage :=
  ⟨match kind with
    | .object => .keyOrEnd
    | .array => .valueOrEnd, kind :: kinds⟩

/-- After a comma inside these containers. -/
def afterComma (trailing : Bool) (kinds : List ContainerKind) : Stage :=
  ⟨match kinds.head?, trailing with
    | some .object, true => .keyOrEnd
    | some .object, false => .key
    | _, true => .valueOrEnd
    | _, false => .value, kinds⟩

end Stage

/-- What may stand before a lexeme, and the stage in which the lexeme is read: a gap, or a separator
between two gaps. `Last` says what the gap next to the lexeme has to be. -/
inductive Lead (o : Options) (Last : Bytes → Prop) : Stage → Bytes → Stage → Prop
  | gap {stage gap} : Last gap → Lead o Last stage gap stage
  | colon {kinds gap last} : IsGap o.comments gap → Last last →
      Lead o Last ⟨.colon, kinds⟩ (gap ++ 0x3A :: last) ⟨.value, kinds⟩
  | comma {kinds gap last} : IsGap o.comments gap → Last last →
      Lead o Last ⟨.commaOrEnd, kinds⟩ (gap ++ 0x2C :: last)
        (Stage.afterComma o.trailingCommas kinds)

/-- The bytes that write a lexeme in a stage, and the stage after it. -/
inductive Writes : Stage → Bytes → Lexeme → Stage → Prop
  | opening {expect kinds} (kind : ContainerKind) : expect.takesValue →
      Writes ⟨expect, kinds⟩ [kind.openingByte] (.opening kind) (.inside kind kinds)
  | closing {expect kinds} {kind : ContainerKind} : expect.takesCloser kind →
      Writes ⟨expect, kind :: kinds⟩ [kind.closer] (.closing kind) (.afterValue kinds)
  | scalar {expect kinds bytes lexeme} : expect.takesValue → IsScalar bytes lexeme →
      Writes ⟨expect, kinds⟩ bytes lexeme (.afterValue kinds)
  | name {expect kinds raw} : expect.takesName → IsContents raw →
      Writes ⟨expect, kinds⟩ (quoted raw) (.name raw) ⟨.colon, kinds⟩

/-- Bytes that go on from a stage with these lexemes and end in another. -/
inductive Layout (o : Options) : Stage → Bytes → List Lexeme → Stage → Prop
  | last {stage bytes final} : Lead o (IsLastGap o.comments) stage bytes final →
      Layout o stage bytes [] final
  | more {stage lead ready written lexeme next rest lexemes final} :
      Lead o (IsGap o.comments) stage lead ready → Writes ready written lexeme next →
      Layout o next rest lexemes final →
      Layout o stage (lead ++ (written ++ rest)) (lexeme :: lexemes) final

namespace Lead

variable {o : Options} {Last : Bytes → Prop} {stage ready : Stage} {lead : Bytes}

theorem kinds (h : Lead o Last stage lead ready) : ready.kinds = stage.kinds := by
  cases h <;> rfl

theorem mono {Other : Bytes → Prop} (h : Lead o Last stage lead ready)
    (weaker : ∀ gap, Last gap → Other gap) : Lead o Other stage lead ready := by
  cases h with
  | gap last => exact .gap (weaker _ last)
  | colon gap last => exact .colon gap (weaker _ last)
  | comma gap last => exact .comma gap (weaker _ last)

/-- A lead may have more of a gap after it. -/
theorem append {gap : Bytes} (h : Lead o (IsGap o.comments) stage lead ready)
    (more : IsGap o.comments gap) : Lead o (IsGap o.comments) stage (lead ++ gap) ready := by
  cases h with
  | gap last => exact .gap (last.append more)
  | colon before last =>
    rw [List.append_assoc, List.cons_append]
    exact .colon before (last.append more)
  | comma before last =>
    rw [List.append_assoc, List.cons_append]
    exact .comma before (last.append more)

end Lead

/-- The first byte of a lexeme begins no gap and is no separator. -/
theorem Writes.head {stage next : Stage} {written : Bytes} {lexeme : Lexeme}
    (h : Writes stage written lexeme next) :
    ∃ b tail, written = b :: tail ∧ isBlank b = false ∧ b ≠ 0x2F ∧ b ≠ 0x3A ∧ b ≠ 0x2C := by
  cases h with
  | opening kind => cases kind <;> exact ⟨_, _, rfl, by decide⟩
  | @closing _ _ kind => cases kind <;> exact ⟨_, _, rfl, by decide⟩
  | scalar _ scalar =>
    cases scalar with
    | string => exact ⟨_, _, rfl, by decide⟩
    | number numeral =>
      obtain ⟨b, tail, rfl, head⟩ := Numeral.head_of_isNumeral numeral
      have other (c : UInt8) (h : ¬ (c = 0x2D ∨ isDigit c)) : b ≠ c := fun same => h (same ▸ head)
      refine ⟨b, tail, rfl, ?_, other _ (by decide), other _ (by decide), other _ (by decide)⟩
      simp [isBlank, other 0x20 (by decide), other 0x09 (by decide), other 0x0A (by decide),
        other 0x0D (by decide)]
    | yes | no | null => exact ⟨_, _, rfl, by decide⟩
  | name => exact ⟨_, _, rfl, by decide⟩

theorem NoNumeralAhead.of_isGap {comments : Bool} {gap rest : Bytes} (h : IsGap comments gap)
    (after : NoNumeralAhead rest) : NoNumeralAhead (gap ++ rest) := by
  cases h with
  | nil => exact after
  | @blank b _ blank _ =>
    rintro _ ⟨⟩
    rcases blank with rfl | rfl | rfl | rfl <;> decide
  | line | block =>
    rintro _ ⟨⟩
    decide

theorem NoNumeralAhead.of_isLastGap {comments : Bool} {bytes : Bytes}
    (h : IsLastGap comments bytes) : NoNumeralAhead bytes := by
  cases h with
  | closed gap =>
    rw [← List.append_nil bytes]
    exact .of_isGap gap noNumeralAhead_nil
  | openLine _ gap _ =>
    refine .of_isGap gap ?_
    rintro _ ⟨⟩
    decide

theorem Stage.afterValue_ne {kinds outer : List ContainerKind} {expect : Expect}
    (done : expect ≠ .done) (comma : expect ≠ .commaOrEnd) :
    Stage.afterValue kinds ≠ ⟨expect, outer⟩ := by
  intro same
  have same := congrArg Stage.expect same
  simp only [Stage.afterValue] at same
  split at same
  · exact done same.symm
  · exact comma same.symm

/-- Right after a whole value only a closer is a lexeme. -/
theorem Writes.of_afterValue {kinds : List ContainerKind} {written : Bytes} {lexeme : Lexeme}
    {next : Stage} (h : Writes (.afterValue kinds) written lexeme next) :
    ∃ kind outer, kinds = kind :: outer ∧ written = [kind.closer] ∧ lexeme = .closing kind ∧
      next = .afterValue outer := by
  generalize stage : Stage.afterValue kinds = s at h
  cases h with
  | opening _ takes | scalar takes | name takes =>
    refine absurd stage (Stage.afterValue_ne ?_ ?_) <;>
    · rintro rfl
      cases takes
  | closing => exact ⟨_, _, congrArg Stage.kinds stage, rfl, rfl, rfl⟩

theorem Writes.next_of_number {stage next : Stage} {written : Bytes} {lexeme : Lexeme}
    (h : Writes stage written lexeme next) (number : lexeme.kind = .number) :
    next = .afterValue stage.kinds := by
  cases h with
  | scalar => rfl
  | opening | closing | name => cases number

theorem Writes.isNumeral {stage next : Stage} {written : Bytes} {lexeme : Lexeme}
    (h : Writes stage written lexeme next) (number : lexeme.kind = .number) :
    stage.expect.takesValue ∧ IsNumeral written := by
  cases h with
  | scalar takes scalar =>
    cases scalar with
    | number numeral => exact ⟨takes, numeral⟩
    | string | yes | no | null => cases number
  | opening | closing | name => cases number

/-- Nothing that may stand after a whole value makes a number longer. -/
theorem Layout.noNumeralAhead {o : Options} {kinds : List ContainerKind} {bytes : Bytes}
    {lexemes : List Lexeme} {final : Stage} (h : Layout o (.afterValue kinds) bytes lexemes final) :
    NoNumeralAhead bytes := by
  generalize stage : Stage.afterValue kinds = s at h
  cases h with
  | last lead =>
    cases lead with
    | gap last => exact .of_isLastGap last
    | colon => exact absurd stage (Stage.afterValue_ne (by simp) (by simp))
    | comma gap =>
      refine .of_isGap gap ?_
      rintro _ ⟨⟩
      decide
  | more lead writes =>
    cases lead with
    | gap last =>
      cases stage
      obtain ⟨kind, -, -, rfl, -⟩ := writes.of_afterValue
      refine .of_isGap last ?_
      rintro _ ⟨⟩
      cases kind <;> decide
    | colon => exact absurd stage (Stage.afterValue_ne (by simp) (by simp))
    | comma gap =>
      rw [List.append_assoc, List.cons_append]
      refine .of_isGap gap ?_
      rintro _ ⟨⟩
      decide

end PathFold.Json
