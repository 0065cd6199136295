import PathFold.Proofs.Grammar.Cut
import PathFold.Proofs.Tokens.Spans

/-! Tokens of a longer input. More bytes behind an input change none of the tokens before them, but
for a number that stands right in front of them. -/

namespace PathFold.Json.Tokenizer

/-- That a tokenizer stands where another one stands, in an input that goes on with more bytes. -/
structure Extends (more : Bytes) (t u : Tokenizer) : Prop where
  stage : u.stage = t.stage
  options : u.options = t.options
  position : u.position = t.position
  rest : u.cursor.rest = t.cursor.rest ++ more

/-- A token is given by its lexeme and its place. -/
theorem Took.token_eq {t t' u u' : Tokenizer} {written written' : Bytes} {token token' : Token}
    (h : t.Took written token u) (h' : t'.Took written' token' u')
    (position : t'.position = t.position) (lexeme : token'.lexeme = token.lexeme) :
    token' = token := by
  obtain ⟨kind, raw⟩ := Lexeme.mk.inj lexeme
  have same : written' = written := by
    rw [h.writes.eq_written, h'.writes.eq_written, lexeme]
  have start : token'.start = token.start := by rw [h'.start, h.start, position]
  have stop : token'.stop = token.stop := by rw [h'.stop, h.stop, position, same]
  have escaped : token'.escaped = token.escaped := by rw [h'.escaped, h.escaped, raw]
  calc token' = ⟨token'.kind, token'.raw, token'.start, token'.stop, token'.escaped⟩ := rfl
    _ = token := by rw [kind, raw, start, stop, escaped]

namespace Extends

variable {more : Bytes} {t u v : Tokenizer} {token : Token}

theorem depth (h : t.Extends more v) : v.depth = t.depth := by
  rw [← length_stage, h.stage, length_stage]

/-- A number that ends in front of a byte ends there whatever comes later. -/
theorem readNumber_gives (h : t.Extends more v) (call : t.readNumber = (.ok (some token), u))
    (settled : u.cursor.rest ≠ []) :
    Gives v.readNumber token.lexeme u.stage (u.cursor.rest ++ more) := by
  unfold readNumber at call ⊢
  cases read : Numeral.read t.cursor.rest with
  | error stop =>
    rw [read] at call
    cases call
  | ok n =>
    rw [read] at call
    cases call
    have short : n < t.cursor.rest.length := by
      refine Nat.lt_of_not_le fun all => settled ?_
      exact List.drop_eq_nil_of_le all
    have ahead : v.cursor.rest =
        t.cursor.rest.take n ++ (t.cursor.rest.drop n ++ more) := by
      rw [h.rest, ← List.append_assoc, List.take_append_drop]
    have gives := gives_take ahead .number (afterValue v.nesting) v.nesting
    have again := Numeral.settled_read _ n read short more
    have inward : v.nesting.inward = t.nesting.inward := congrArg Stage.kinds h.stage
    have length := List.length_take_of_le (Nat.le_of_lt short)
    rw [afterValue_eq, inward, ← afterValue_eq, length] at gives
    rw [h.rest, again]
    exact gives

theorem readLexeme_gives (h : t.Extends more v) (call : t.readLexeme = (.ok (some token), u))
    (settled : token.kind = .number → u.cursor.rest ≠ []) :
    Gives v.readLexeme token.lexeme u.stage (u.cursor.rest ++ more) := by
  obtain ⟨written, took⟩ := took_of_readLexeme call
  obtain ⟨rest, ahead⟩ := took.ahead
  by_cases number : token.kind = .number
  · obtain ⟨takes, numeral⟩ := took.writes.isNumeral number
    have takes' : v.expect.takesValue := by
      have expect : v.expect = t.expect := congrArg Stage.expect h.stage
      rwa [expect]
    have here : v.cursor.rest = written ++ (rest ++ more) := by
      rw [h.rest, ← ahead, List.append_assoc]
    rw [readLexeme_of_isNumeral takes numeral ahead.symm] at call
    rw [readLexeme_of_isNumeral takes' numeral here]
    exact h.readNumber_gives call (settled number)
  · have left : u.cursor.rest = rest := by simp [took.cursor, ← ahead]
    have here : v.cursor.rest = written ++ (u.cursor.rest ++ more) := by
      rw [h.rest, left, ← ahead, List.append_assoc]
    refine Tokenizer.readLexeme_gives (h.stage ▸ took.writes) here (fun same => ?_) ?_
    · exact (number same).elim
    · rw [h.depth]
      exact took.room

/-- The lead of a lexeme is passed again. -/
theorem next_of_passed (h : t.Extends more v) {passed rest written : Bytes} {ready : Tokenizer}
    (ahead : t.cursor.rest = passed ++ rest)
    (came : t.Passed (GapBefore t.options.comments rest) passed ready)
    (took : ready.Took written token u) :
    ∃ again, v.next = again.readLexeme ∧ ready.Extends more again := by
  have here : ready.cursor.rest = rest := by simp [came.cursor, ahead]
  obtain ⟨tail, split⟩ := here ▸ took.ahead
  obtain ⟨b, others, head, noBlank, noSlash, noColon, noComma⟩ := took.writes.head
  have first : rest ++ more = b :: (others ++ (tail ++ more)) := by
    rw [← split, head, List.append_assoc, List.cons_append]
  have stop : NoGapAhead (rest ++ more) := first ▸ noGapAhead_cons.2 ⟨noBlank, noSlash⟩
  have noEnd : rest ≠ [] := by simp [← split, head]
  have lead : Lead v.options (IsGap v.options.comments) v.stage passed ready.stage := by
    rw [h.options, h.stage]
    exact came.lead.mono fun _ before => before.2 noEnd
  have ahead' : v.cursor.rest = passed ++ (rest ++ more) := by
    rw [h.rest, ahead, List.append_assoc]
  obtain ⟨again, call, stage, -, options, cursor⟩ := next_of_lead lead ahead'
    (fun gap last => Gap.ofFront_of_isGap last stop) (by simp [first, noColon, noComma])
  refine ⟨again, call, stage, by rw [options, h.options, came.options], ?_, ?_⟩
  · calc again.position = v.position + passed.length := congrArg Cursor.pos cursor
      _ = t.position + passed.length := by rw [h.position]
      _ = ready.position := (congrArg Cursor.pos came.cursor).symm
  · rw [cursor, Cursor.advance_rest, ahead', List.drop_left, here]

/-- A token that more bytes cannot change is given again, and leaves one tokenizer where it leaves
the other. -/
theorem next_of_token (h : t.Extends more v) (call : t.next = (.ok (some token), u))
    (settled : token.kind = .number → u.cursor.rest ≠ []) :
    ∃ w, v.next = (.ok (some token), w) ∧ u.Extends more w := by
  obtain ⟨passed, rest, ready, ahead, came, read⟩ := passed_of_next call
  obtain ⟨written, took⟩ := took_of_readLexeme read
  obtain ⟨again, call', here⟩ := h.next_of_passed ahead came took
  obtain ⟨token', w, read', lexeme, stage, rest'⟩ := here.readLexeme_gives read settled
  obtain ⟨written', took'⟩ := took_of_readLexeme read'
  obtain rfl := took.token_eq took' here.position lexeme
  have options : w.options = u.options := by rw [took'.options, took.options, here.options]
  have position : w.position = u.position :=
    (position_of_next (call'.trans read')).trans (position_of_next call).symm
  exact ⟨w, call'.trans read', stage, options, position, rest'⟩

end Extends

/-- The first calls over an input, as long as they give tokens that more bytes cannot change, and
the same calls over the longer input. -/
theorem extends_after {o : Options} {input : Bytes} {count : Nat} (more : Bytes)
    (tokens : ∀ n < count, ∃ token, ((start o input).after n).next.1 = .ok (some token) ∧
      ¬ (token.kind = .number ∧ token.stop = input.length)) {n : Nat} (le : n ≤ count) :
    ((start o input).after n).Extends more ((start o (input ++ more)).after n) ∧
      ∀ m < n, ((start o (input ++ more)).after m).next.1 = ((start o input).after m).next.1 := by
  induction n with
  | zero => exact ⟨⟨rfl, rfl, rfl, rfl⟩, fun m before => absurd before (Nat.not_lt_zero m)⟩
  | succ n ih =>
    obtain ⟨here, same⟩ := ih (Nat.le_of_succ_le le)
    obtain ⟨token, given, apart⟩ := tokens n le
    have call := next_after given
    have settled : token.kind = .number → ((start o input).after (n + 1)).cursor.rest ≠ [] := by
      intro number none
      have stop := position_of_next call
      have within := position_after_le o input (n + 1)
      have left := ((start o input).after (n + 1)).cursor.length_rest
      rw [none, input_after] at left
      refine apart ⟨number, stop ▸ Nat.le_antisymm within ?_⟩
      exact Nat.le_of_sub_eq_zero left.symm
    obtain ⟨w, again, after⟩ := here.next_of_token call settled
    have there : (start o (input ++ more)).after (n + 1) = w := congrArg Prod.snd again
    refine ⟨there ▸ after, fun m before => ?_⟩
    rcases Nat.lt_succ_iff_lt_or_eq.1 before with before | rfl
    · exact same m before
    · rw [again, given]

/-- Tokens depend on the bytes up to their end only, but for a number in front of the end of the
input: the first calls give the same tokens over a longer input, and leave the tokenizer at the same
position and depth. -/
theorem next_of_longer_input {o : Options} {input : Bytes} {count : Nat} (more : Bytes)
    (tokens : ∀ n < count, ∃ token, ((start o input).after n).next.1 = .ok (some token) ∧
      ¬ (token.kind = .number ∧ token.stop = input.length)) :
    ∀ n < count,
      ((start o (input ++ more)).after n).next.1 = ((start o input).after n).next.1 ∧
      ((start o (input ++ more)).after (n + 1)).position =
        ((start o input).after (n + 1)).position ∧
      ((start o (input ++ more)).after (n + 1)).depth = ((start o input).after (n + 1)).depth := by
  intro n before
  obtain ⟨after, same⟩ := extends_after more tokens (Nat.succ_le_of_lt before)
  exact ⟨same n (Nat.lt_succ_self n), after.position, after.depth⟩

/-- The number `1` in `[1,` has the comma behind it. -/
theorem next_of_longer_input_number :
    ((start .strict ([0x5B, 0x31, 0x2C] ++ [0x32, 0x5D])).after 1).next.1 =
      .ok (some ⟨.number, [0x31], 1, 2, false⟩) := by
  have feed : (start .strict [0x5B, 0x31, 0x2C]).feed =
      ⟨[⟨⟨.opening .array, [0x5B], 0, 1, false⟩, 1⟩, ⟨⟨.number, [0x31], 1, 2, false⟩, 1⟩],
        none⟩ := by decide +kernel
  have opening := next_of_pull (congrArg (·.pulls[0]?) feed)
  have number := next_of_pull (congrArg (·.pulls[1]?) feed)
  have tokens : ∀ n < 2, ∃ token,
      ((start .strict [0x5B, 0x31, 0x2C]).after n).next.1 = .ok (some token) ∧
        ¬ (token.kind = .number ∧ token.stop = [0x5B, 0x31, 0x2C].length) := by
    intro n before
    rcases Nat.lt_succ_iff_lt_or_eq.1 before with before | rfl
    · obtain rfl := Nat.lt_one_iff.1 before
      exact ⟨_, opening, by decide⟩
    · exact ⟨_, number, by decide⟩
  exact (next_of_longer_input [0x32, 0x5D] tokens 1 (by decide)).1.trans number

end PathFold.Json.Tokenizer
