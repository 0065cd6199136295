import PathFold.Json.Tokenizer.Progress
import PathFold.Proofs.Grammar.Quotation
import PathFold.Proofs.Layout.Basic

/-! One lexeme at the cursor. A token is given only for a lexeme that the stage allows, and every
lexeme that the stage allows is given as a token, unless it opens one container too many. -/

namespace PathFold.Json

namespace Nesting

/-- The kinds of the open containers, innermost first. -/
def inward (nesting : Nesting) : List ContainerKind := nesting.kinds.reverse

theorem inward_enter? {nesting inner : Nesting} {kind : ContainerKind}
    (h : nesting.enter? kind = some inner) : inner.inward = kind :: nesting.inward := by
  simp [inward, kinds_enter? h]

theorem inward_leave (nesting : Nesting) : nesting.leave.inward = nesting.inward.tail := by
  simp [inward, kinds_leave]

theorem innermost?_eq_head? (nesting : Nesting) : nesting.innermost? = nesting.inward.head? := by
  rw [innermost?_eq, inward, List.head?_reverse]

theorem length_inward (nesting : Nesting) : nesting.inward.length = nesting.depth := by
  rw [inward, List.length_reverse, length_kinds]

theorem exists_enter? {nesting : Nesting} (h : nesting.depth < 64) (kind : ContainerKind) :
    ∃ inner, nesting.enter? kind = some inner := by
  cases entered : nesting.enter? kind with
  | none => exact absurd ((enter?_eq_none_iff nesting kind).1 entered) (Nat.not_le_of_lt h)
  | some inner => exact ⟨inner, rfl⟩

end Nesting

namespace Tokenizer

def stage (t : Tokenizer) : Stage := ⟨t.expect, t.nesting.inward⟩

theorem afterValue_eq (nesting : Nesting) :
    (⟨afterValue nesting, nesting.inward⟩ : Stage) = .afterValue nesting.inward := by
  have empty : nesting.inward = [] ↔ nesting.depth = 0 := by
    rw [← Nesting.length_inward, List.length_eq_zero_iff]
  simp only [afterValue, Stage.afterValue, empty]

/-- That a lexeme has been taken at the cursor, as the token given and with the tokenizer after it.
-/
structure Took (t : Tokenizer) (written : Bytes) (token : Token) (u : Tokenizer) : Prop where
  writes : Writes t.stage written token.lexeme u.stage
  ahead : written <+: t.cursor.rest
  start : token.start = t.position
  stop : token.stop = t.position + written.length
  escaped : token.escaped = Escape.hasEscape token.raw
  options : u.options = t.options
  cursor : u.cursor = t.cursor.advance written.length
  room : ∀ kind, token.kind = .opening kind → t.depth < 64

theorem took_take {t : Tokenizer} {kind : TokenKind} {n : Nat} {expect : Expect}
    {nesting : Nesting} {token : Token} {u : Tokenizer}
    (h : t.take kind n expect nesting = (.ok (some token), u)) (enough : n ≤ t.cursor.rest.length)
    (writes : Writes t.stage (t.cursor.rest.take n) ⟨kind, t.cursor.rest.take n⟩
      ⟨expect, nesting.inward⟩)
    (plain : Escape.hasEscape (t.cursor.rest.take n) = false)
    (room : ∀ container, kind = .opening container → t.depth < 64) :
    t.Took (t.cursor.rest.take n) token u := by
  have length : (t.cursor.rest.take n).length = n := List.length_take_of_le enough
  cases h
  exact ⟨writes, List.take_prefix _ _, rfl, by rw [length], plain.symm, rfl, by rw [length], room⟩

theorem took_of_readOpening {t u : Tokenizer} {container : ContainerKind} {token : Token}
    {tail : Bytes} (h : t.readOpening container = (.ok (some token), u))
    (takes : t.expect.takesValue) (ahead : t.cursor.rest = container.openingByte :: tail) :
    ∃ written, t.Took written token u := by
  unfold readOpening at h
  split at h
  · cases h
  · rename_i inner entered
    have room : t.depth < 64 := by
      refine Nat.lt_of_not_le fun full => ?_
      rw [(Nesting.enter?_eq_none_iff _ _).2 full] at entered
      cases entered
    refine ⟨_, took_take h ?_ ?_ ?_ fun _ _ => room⟩
    · simp [ahead]
    · rw [ahead, Nesting.inward_enter? entered]
      exact .opening container takes
    · rw [ahead]
      cases container <;> rfl

theorem took_of_readClosing {t u : Tokenizer} {container : ContainerKind} {token : Token}
    {tail : Bytes} (h : t.readClosing container = (.ok (some token), u))
    (takes : t.expect.takesCloser container) (ahead : t.cursor.rest = container.closer :: tail) :
    ∃ written, t.Took written token u := by
  unfold readClosing at h
  split at h
  · rename_i innermost
    rw [Nesting.innermost?_eq_head?] at innermost
    obtain ⟨outer, kinds⟩ := List.head?_eq_some_iff.1 innermost
    have stage : t.stage = ⟨t.expect, container :: outer⟩ := by rw [Tokenizer.stage, kinds]
    refine ⟨_, took_take h ?_ ?_ ?_ ?_⟩
    · simp [ahead]
    · rw [afterValue_eq, Nesting.inward_leave, kinds, ahead, stage]
      exact .closing takes
    · rw [ahead]
      cases container <;> rfl
    · rintro _ ⟨⟩
  · cases h

theorem took_of_readNumber {t u : Tokenizer} {token : Token}
    (h : t.readNumber = (.ok (some token), u)) (takes : t.expect.takesValue) :
    ∃ written, t.Took written token u := by
  have within := Numeral.within_read t.cursor.rest
  unfold readNumber at h
  split at h
  · rename_i n ok
    rw [ok] at within
    have numeral := Numeral.isNumeral_of_read ok
    refine ⟨_, took_take h within ?_ (Numeral.hasEscape_of_isNumeral numeral) ?_⟩
    · rw [afterValue_eq]
      exact .scalar takes (.number numeral)
    · rintro _ ⟨⟩
  · cases h

theorem took_of_readLiteral {t u : Tokenizer} {kind : TokenKind} {word : Bytes} {token : Token}
    (h : t.readLiteral kind word = (.ok (some token), u)) (takes : t.expect.takesValue)
    (scalar : IsScalar word ⟨kind, word⟩) (plain : Escape.hasEscape word = false)
    (noOpening : ∀ container, kind ≠ .opening container) : ∃ written, t.Took written token u := by
  unfold readLiteral at h
  split at h
  · rename_i starts
    obtain ⟨tail, ahead⟩ := List.isPrefixOf_iff_prefix.1 starts
    have word_eq : t.cursor.rest.take word.length = word := by rw [← ahead, List.take_left]
    refine ⟨_, took_take h ?_ ?_ ?_ ?_⟩
    · simp [← ahead]
    · rw [afterValue_eq, word_eq]
      exact .scalar takes scalar
    · rw [word_eq]
      exact plain
    · exact fun container same => (noOpening container same).elim
  · cases h

theorem took_of_readQuoted {t u : Tokenizer} {kind : TokenKind} {expect : Expect} {token : Token}
    {tail : Bytes} (h : t.readQuoted kind expect = (.ok (some token), u))
    (ahead : t.cursor.rest = 0x22 :: tail)
    (writes : ∀ raw, IsContents raw →
      Writes t.stage (quoted raw) ⟨kind, raw⟩ ⟨expect, t.nesting.inward⟩)
    (noOpening : ∀ container, kind ≠ .opening container) : ∃ written, t.Took written token u := by
  have content : t.cursor.rest.drop 1 = tail := by rw [ahead, List.drop_one, List.tail_cons]
  unfold readQuoted at h
  dsimp only at h
  rw [content] at h
  split at h
  · rename_i n escaped closed
    obtain ⟨raw, rest, rfl, rfl, contents, rfl⟩ := Quotation.isContents_of_closed tail closed
    rw [List.take_left] at h
    have length : (quoted raw).length = raw.length + 2 := by simp [quoted]
    cases h
    refine ⟨quoted raw, writes raw contents, ⟨rest, ?_⟩, rfl, ?_, rfl, rfl, ?_, ?_⟩
    · rw [ahead, quoted]
      simp
    · rw [length, Nat.add_assoc]
    · rw [length]
    · exact fun container same => (noOpening container same).elim
  · cases h
  · cases h

theorem took_of_readValue {t u : Tokenizer} {b : UInt8} {token : Token} {tail : Bytes}
    (h : t.readValue b = (.ok (some token), u)) (takes : t.expect.takesValue)
    (ahead : t.cursor.rest = b :: tail) : ∃ written, t.Took written token u := by
  unfold readValue at h
  split at h
  · rename_i object
    exact took_of_readOpening h takes (by rw [ahead, object]; rfl)
  · split at h
    · rename_i array
      exact took_of_readOpening h takes (by rw [ahead, array]; rfl)
    · split at h
      · rename_i quote
        rw [quote] at ahead
        refine took_of_readQuoted h ahead (fun raw contents => ?_) (by simp)
        rw [afterValue_eq]
        exact .scalar takes (.string contents)
      · split at h
        · exact took_of_readNumber h takes
        · split at h
          · exact took_of_readLiteral h takes .yes rfl (by simp)
          · split at h
            · exact took_of_readLiteral h takes .no rfl (by simp)
            · split at h
              · exact took_of_readLiteral h takes .null rfl (by simp)
              · cases h

theorem took_of_readName {t u : Tokenizer} {token : Token} {tail : Bytes}
    (h : t.readName = (.ok (some token), u)) (takes : t.expect.takesName)
    (ahead : t.cursor.rest = 0x22 :: tail) : ∃ written, t.Took written token u :=
  took_of_readQuoted h ahead (fun _ contents => .name takes contents) (by simp)

/-- A token is given only for a lexeme that the stage allows. -/
theorem took_of_readLexeme {t u : Tokenizer} {token : Token}
    (h : t.readLexeme = (.ok (some token), u)) : ∃ written, t.Took written token u := by
  have reads := t.reads_readLexeme
  generalize t.readLexeme = step at h reads
  cases reads with
  | finish =>
    unfold readEnd at h
    split at h <;> cases h
  | closing takes ahead => exact took_of_readClosing h takes ahead
  | name takes ahead => exact took_of_readName h takes ahead
  | value takes ahead => exact took_of_readValue h takes ahead
  | refused => cases h

/-- That reading gives a token with this lexeme and leaves the tokenizer in this stage, with these
bytes still to read. -/
def Gives (step : Answer × Tokenizer) (lexeme : Lexeme) (next : Stage) (rest : Bytes) : Prop :=
  ∃ token u, step = (.ok (some token), u) ∧ token.lexeme = lexeme ∧ u.stage = next ∧
    u.cursor.rest = rest

theorem gives_take {t : Tokenizer} {written rest : Bytes} (ahead : t.cursor.rest = written ++ rest)
    (kind : TokenKind) (expect : Expect) (nesting : Nesting) :
    Gives (t.take kind written.length expect nesting) ⟨kind, written⟩ ⟨expect, nesting.inward⟩
      rest := by
  refine ⟨_, _, rfl, ?_, rfl, ?_⟩
  · rw [Token.lexeme, ahead, List.take_left]
  · rw [Cursor.advance_rest, ahead, List.drop_left]

theorem readOpening_gives {t : Tokenizer} {kind : ContainerKind} {rest : Bytes}
    (ahead : t.cursor.rest = [kind.openingByte] ++ rest) (room : t.depth < 64) :
    Gives (t.readOpening kind) (.opening kind) (.inside kind t.nesting.inward) rest := by
  obtain ⟨inner, entered⟩ := Nesting.exists_enter? room kind
  unfold readOpening
  rw [entered]
  have h := gives_take ahead (.opening kind) (Stage.inside kind t.nesting.inward).expect inner
  rw [Nesting.inward_enter? entered] at h
  cases kind <;> exact h

theorem readClosing_gives {t : Tokenizer} {kind : ContainerKind} {kinds : List ContainerKind}
    {rest : Bytes} (ahead : t.cursor.rest = [kind.closer] ++ rest)
    (inward : t.nesting.inward = kind :: kinds) :
    Gives (t.readClosing kind) (.closing kind) (.afterValue kinds) rest := by
  have innermost : t.nesting.innermost? = some kind := by
    rw [Nesting.innermost?_eq_head?, inward, List.head?_cons]
  rw [readClosing, if_pos innermost]
  have h := gives_take ahead (.closing kind) (afterValue t.nesting.leave) t.nesting.leave
  rw [afterValue_eq, Nesting.inward_leave, inward, List.tail_cons] at h
  exact h

theorem readQuoted_gives {t : Tokenizer} {raw rest : Bytes} (contents : IsContents raw)
    (ahead : t.cursor.rest = quoted raw ++ rest) (kind : TokenKind) (expect : Expect) :
    Gives (t.readQuoted kind expect) ⟨kind, raw⟩ ⟨expect, t.nesting.inward⟩ rest := by
  have content : t.cursor.rest.drop 1 = raw ++ 0x22 :: rest := by simp [ahead, quoted]
  have read := Quotation.ofFront_append contents rest
  simp only [readQuoted, content, read]
  refine ⟨_, _, rfl, ?_, rfl, ?_⟩
  · rw [Token.lexeme, List.take_left]
  · simp [ahead, quoted]

theorem readNumber_gives {t : Tokenizer} {raw rest : Bytes} (numeral : IsNumeral raw)
    (stop : NoNumeralAhead rest) (ahead : t.cursor.rest = raw ++ rest) :
    Gives t.readNumber ⟨.number, raw⟩ (.afterValue t.nesting.inward) rest := by
  have read := Numeral.read_append numeral stop
  rw [readNumber, ahead, read, ← afterValue_eq]
  exact gives_take ahead .number _ _

theorem readLiteral_gives {t : Tokenizer} {word rest : Bytes} (kind : TokenKind)
    (ahead : t.cursor.rest = word ++ rest) :
    Gives (t.readLiteral kind word) ⟨kind, word⟩ (.afterValue t.nesting.inward) rest := by
  have starts : word.isPrefixOf t.cursor.rest = true := by
    rw [ahead]
    exact List.isPrefixOf_iff_prefix.2 (List.prefix_append _ _)
  rw [readLiteral, if_pos starts, ← afterValue_eq]
  exact gives_take ahead kind _ _

theorem readLexeme_of_takesValue {t : Tokenizer} {b : UInt8} {tail : Bytes}
    (takes : t.expect.takesValue) (ahead : t.cursor.rest = b :: tail) (noCloser : b ≠ 0x5D) :
    t.readLexeme = t.readValue b := by
  have peek : t.cursor.peek = some b := by rw [Cursor.peek, ahead, List.head?_cons]
  rw [readLexeme, peek]
  cases expect : t.expect with
  | value => rfl
  | valueOrEnd => exact if_neg noCloser
  | _ =>
    rw [expect] at takes
    cases takes

theorem readValue_of_numeral {t : Tokenizer} {b : UInt8} (h : b = 0x2D ∨ isDigit b) :
    t.readValue b = t.readNumber := by
  have other (c : UInt8) (no : ¬ (c = 0x2D ∨ isDigit c)) : b ≠ c := fun same => no (same ▸ h)
  rw [readValue, if_neg (other _ (by decide)), if_neg (other _ (by decide)),
    if_neg (other _ (by decide)), if_pos h]

/-- A number is read as one by its first byte. -/
theorem readLexeme_of_isNumeral {t : Tokenizer} {raw rest : Bytes} (takes : t.expect.takesValue)
    (numeral : IsNumeral raw) (ahead : t.cursor.rest = raw ++ rest) :
    t.readLexeme = t.readNumber := by
  obtain ⟨b, tail, rfl, head⟩ := Numeral.head_of_isNumeral numeral
  have noCloser : b ≠ 0x5D := by
    rintro rfl
    exact absurd head (by decide)
  rw [readLexeme_of_takesValue takes ahead noCloser, readValue_of_numeral head]

theorem readLexeme_of_isScalar {t : Tokenizer} {written rest : Bytes} {lexeme : Lexeme}
    (takes : t.expect.takesValue) (scalar : IsScalar written lexeme)
    (ahead : t.cursor.rest = written ++ rest)
    (stop : lexeme.kind = .number → NoNumeralAhead rest) :
    Gives t.readLexeme lexeme (.afterValue t.nesting.inward) rest := by
  cases scalar with
  | string contents =>
    rw [readLexeme_of_takesValue takes ahead (by decide), ← afterValue_eq]
    exact readQuoted_gives contents ahead .string _
  | number numeral =>
    rw [readLexeme_of_isNumeral takes numeral ahead]
    exact readNumber_gives numeral (stop rfl) ahead
  | yes | no | null =>
    rw [readLexeme_of_takesValue takes ahead (by decide)]
    exact readLiteral_gives _ ahead

theorem readLexeme_of_takesCloser {t : Tokenizer} {kind : ContainerKind} {rest : Bytes}
    (takes : t.expect.takesCloser kind) (ahead : t.cursor.rest = [kind.closer] ++ rest) :
    t.readLexeme = t.readClosing kind := by
  have peek : t.cursor.peek = some kind.closer := by rw [Cursor.peek, ahead]; rfl
  rw [readLexeme, peek]
  cases expect : t.expect <;> rw [expect] at takes <;> cases kind <;> first | rfl | cases takes

theorem readLexeme_of_takesName {t : Tokenizer} {tail : Bytes}
    (takes : t.expect.takesName) (ahead : t.cursor.rest = 0x22 :: tail) :
    t.readLexeme = t.readName := by
  have peek : t.cursor.peek = some 0x22 := by rw [Cursor.peek, ahead, List.head?_cons]
  rw [readLexeme, peek]
  cases expect : t.expect <;> rw [expect] at takes <;> first | rfl | cases takes

/-- A lexeme that the stage allows is read as its token, unless it opens one container too many. -/
theorem readLexeme_gives {t : Tokenizer} {written rest : Bytes} {lexeme : Lexeme} {next : Stage}
    (writes : Writes t.stage written lexeme next) (ahead : t.cursor.rest = written ++ rest)
    (stop : lexeme.kind = .number → NoNumeralAhead rest)
    (room : ∀ kind, lexeme.kind = .opening kind → t.depth < 64) :
    Gives t.readLexeme lexeme next rest := by
  generalize stage : t.stage = s at writes
  cases writes with
  | opening kind takes =>
    cases stage
    have noCloser : kind.openingByte ≠ 0x5D := by cases kind <;> decide
    have value : t.readValue kind.openingByte = t.readOpening kind := by cases kind <;> rfl
    rw [readLexeme_of_takesValue takes ahead noCloser, value]
    exact readOpening_gives ahead (room kind rfl)
  | closing takes =>
    obtain ⟨rfl, inward⟩ := Stage.mk.inj stage
    rw [readLexeme_of_takesCloser takes ahead]
    exact readClosing_gives ahead inward
  | scalar takes scalar =>
    cases stage
    exact readLexeme_of_isScalar takes scalar ahead stop
  | name takes contents =>
    cases stage
    rw [readLexeme_of_takesName takes ahead]
    exact readQuoted_gives contents ahead .propertyName .colon

end Tokenizer

end PathFold.Json
