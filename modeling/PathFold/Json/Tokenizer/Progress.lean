import PathFold.Json.Tokenizer.Cases

/-! Progress of the tokenizer. Every call moves the cursor forward by some of the bytes that are left,
changes neither the input nor the options, and moves by at least one byte if it gives a token. -/

namespace PathFold.Json.Tokenizer

/-- How many bytes are left to read. -/
def left (t : Tokenizer) : Nat := t.cursor.rest.length

theorem rest_eq_drop (t : Tokenizer) : t.cursor.rest = t.cursor.input.drop t.position :=
  t.cursor.rest_eq

/-- What holds of every reading step that starts at `t`. -/
def Advances (t : Tokenizer) (step : Answer × Tokenizer) : Prop :=
  ∃ n, n ≤ t.left ∧ step.2.cursor = t.cursor.advance n ∧ step.2.options = t.options ∧
    ∀ token, step.1 = .ok (some token) → 0 < n

theorem advances_refuse (t : Tokenizer) (fault : Fault) : t.Advances (t.refuse fault) :=
  ⟨0, Nat.zero_le _, (t.cursor.advance_zero).symm, rfl, fun _ ok => by cases ok⟩

theorem advances_refuseAfter {t : Tokenizer} {n : Nat} (h : n ≤ t.left) (fault : Fault) :
    t.Advances (t.refuseAfter n fault) :=
  ⟨n, h, rfl, rfl, fun _ ok => by cases ok⟩

theorem advances_take {t : Tokenizer} {n : Nat} (kind : TokenKind) (expect : Expect)
    (nesting : Nesting) (pos : 0 < n) (h : n ≤ t.left) :
    t.Advances (t.take kind n expect nesting) :=
  ⟨n, h, rfl, rfl, fun _ _ => pos⟩

theorem advances_readOpening {t : Tokenizer} (container : ContainerKind) (h : 0 < t.left) :
    t.Advances (t.readOpening container) := by
  unfold readOpening
  split
  · exact advances_refuse _ _
  · exact advances_take _ _ _ Nat.one_pos h

theorem advances_readClosing {t : Tokenizer} (container : ContainerKind) (h : 0 < t.left) :
    t.Advances (t.readClosing container) := by
  unfold readClosing
  split
  · exact advances_take _ _ _ Nat.one_pos h
  · exact advances_refuse _ _

theorem advances_readQuoted {t : Tokenizer} (kind : TokenKind) (expect : Expect)
    (h : 0 < t.left) : t.Advances (t.readQuoted kind expect) := by
  have within := Quotation.within_ofFront (t.cursor.rest.drop 1)
  have hlen : (t.cursor.rest.drop 1).length = t.left - 1 := List.length_drop
  unfold readQuoted
  dsimp only
  split <;> rename_i hq <;> rw [hq] at within <;> simp only [Quotation.Within, hlen] at within
  · exact ⟨_, by omega, rfl, rfl, fun _ _ => Nat.succ_pos _⟩
  · exact ⟨_, by omega, rfl, rfl, fun _ ok => by cases ok⟩
  · exact advances_refuseAfter (by omega) _

theorem advances_readNumber (t : Tokenizer) : t.Advances t.readNumber := by
  have within := Numeral.within_read t.cursor.rest
  unfold readNumber
  split <;> rename_i hn <;> rw [hn] at within
  · exact advances_take _ _ _ (Numeral.read_pos hn) within
  · exact advances_refuseAfter within _

theorem advances_readLiteral {t : Tokenizer} (kind : TokenKind) {word : Bytes}
    (pos : 0 < word.length) : t.Advances (t.readLiteral kind word) := by
  unfold readLiteral
  split
  · rename_i h
    exact advances_take _ _ _ pos (List.isPrefixOf_iff_prefix.1 h).length_le
  · exact advances_refuse _ _

theorem advances_readValue {t : Tokenizer} (b : UInt8) (h : 0 < t.left) :
    t.Advances (t.readValue b) := by
  unfold readValue
  repeat' split
  · exact advances_readOpening _ h
  · exact advances_readOpening _ h
  · exact advances_readQuoted _ _ h
  · exact advances_readNumber t
  · exact advances_readLiteral _ (by decide)
  · exact advances_readLiteral _ (by decide)
  · exact advances_readLiteral _ (by decide)
  · exact advances_refuse _ _

theorem advances_readEnd (t : Tokenizer) : t.Advances t.readEnd := by
  unfold readEnd
  split
  · exact advances_refuse _ _
  · exact ⟨0, Nat.zero_le _, (t.cursor.advance_zero).symm, rfl, fun _ ok => by cases ok⟩

theorem advances_readLexeme (t : Tokenizer) : t.Advances t.readLexeme := by
  have pos {b : UInt8} {tail : Bytes} (ahead : t.cursor.rest = b :: tail) : 0 < t.left := by
    rw [left, ahead]
    exact Nat.succ_pos _
  have reads := t.reads_readLexeme
  generalize t.readLexeme = step at reads
  cases reads with
  | finish => exact advances_readEnd t
  | closing _ ahead => exact advances_readClosing _ (pos ahead)
  | name _ ahead => exact advances_readQuoted _ _ (pos ahead)
  | value _ ahead => exact advances_readValue _ (pos ahead)
  | refused => exact advances_refuse _ _

/-- A step that starts further on is also a step from here. -/
theorem Advances.of_advance {t u : Tokenizer} {n : Nat} {step : Answer × Tokenizer}
    (h : u.Advances step) (hn : n ≤ t.left) (cursor : u.cursor = t.cursor.advance n)
    (options : u.options = t.options) : t.Advances step := by
  obtain ⟨m, hm, hcursor, hoptions, pos⟩ := h
  have hleft : u.left = t.left - n := by simp [left, cursor]
  refine ⟨n + m, by omega, ?_, hoptions.trans options, fun token ok => ?_⟩
  · rw [hcursor, cursor, Cursor.advance_advance]
  · exact Nat.add_pos_right n (pos token ok)

theorem advances_afterGap {t : Tokenizer} {read : Tokenizer → Answer × Tokenizer}
    (h : ∀ n, n ≤ t.left → (t.advance n).Advances (read (t.advance n))) :
    t.Advances (t.afterGap read) := by
  have hle := Gap.ofFront_length_le t.options.comments t.cursor.rest
  unfold afterGap passGap
  dsimp only
  cases (Gap.ofFront t.options.comments t.cursor.rest).closed with
  | true => exact (h _ hle).of_advance hle rfl rfl
  | false => exact (advances_refuse _ _).of_advance hle rfl rfl

/-- A separator is one byte. -/
theorem passSeparator?_eq_some {t u : Tokenizer} (h : t.passSeparator? = some u) :
    1 ≤ t.left ∧ u.cursor = t.cursor.advance 1 ∧ u.options = t.options := by
  have pos {b : UInt8} (hb : t.cursor.peek = some b) : 1 ≤ t.left := by
    unfold left
    rw [Cursor.rest_of_peek hb]
    exact Nat.succ_pos _
  unfold passSeparator? at h
  split at h
  · split at h
    · rename_i hb
      cases h
      exact ⟨pos hb, rfl, rfl⟩
    · cases h
  · split at h
    · rename_i hb
      cases h
      exact ⟨pos hb, rfl, rfl⟩
    · cases h
  · cases h

/-- A separator is passed inside the same containers. -/
theorem nesting_of_passSeparator? {t u : Tokenizer} (h : t.passSeparator? = some u) :
    u.nesting = t.nesting := by
  unfold passSeparator? at h
  repeat' split at h
  all_goals cases h
  all_goals rfl

theorem advances_next (t : Tokenizer) : t.Advances t.next := by
  unfold next
  refine advances_afterGap fun n hn => ?_
  split
  · exact advances_readLexeme _
  · rename_i u hu
    obtain ⟨pos, cursor, options⟩ := passSeparator?_eq_some hu
    exact Advances.of_advance (advances_afterGap fun m hm => advances_readLexeme _) pos cursor options

/-- A call that gives a token leaves fewer bytes to read. -/
theorem left_next_lt {t : Tokenizer} {token : Token} (h : t.next.1 = .ok (some token)) :
    t.next.2.left < t.left := by
  obtain ⟨n, hn, cursor, _, pos⟩ := advances_next t
  have := pos token h
  simp only [left, cursor, Cursor.advance_rest, List.length_drop] at hn ⊢
  omega

theorem input_next (t : Tokenizer) : t.next.2.cursor.input = t.cursor.input := by
  obtain ⟨_, _, cursor, _⟩ := advances_next t
  rw [cursor, Cursor.advance_input]

/-- No call moves the cursor back. -/
theorem position_le_next (t : Tokenizer) : t.position ≤ t.next.2.position := by
  obtain ⟨n, _, cursor, _⟩ := advances_next t
  simp [position, cursor]

/-- No call moves the cursor past the end of the input. -/
theorem position_next_le {t : Tokenizer} (h : t.position ≤ t.cursor.input.length) :
    t.next.2.position ≤ t.cursor.input.length := by
  obtain ⟨n, hn, cursor, _⟩ := advances_next t
  have := t.cursor.length_rest
  simp only [position, left, cursor, Cursor.advance_pos] at *
  omega

end PathFold.Json.Tokenizer
