import PathFold.Proofs.Strings.Comparison

/-! Strings and names of the tokenizer. Their escapes have been read with all the input ahead, and
are well formed on their own, since no escape reaches past the closing quote. So they decode
wherever they are UTF-8, and they are UTF-8 wherever the input is. -/

namespace PathFold.Json

open PathFold.Bytes

namespace Escape

/-- Whether a byte stands somewhere in contents and belongs to no escape. -/
def IsBare (raw : Bytes) (b : UInt8) : Prop :=
  b ≠ 0x5C ∧ ∃ front rest bytes, raw = front ++ b :: rest ∧ Denotes front bytes

/-- What holds of the bytes between the quotes of a string. -/
structure WellQuoted (raw : Bytes) : Prop where
  noControl : ∀ b ∈ raw, 0x20 ≤ b
  noQuote : ¬ IsBare raw 0x22
  wellFormed : ∃ bytes, Denotes raw bytes
  decodes : (∃ text, decode raw = .ok text) ↔ IsUtf8 raw

/-- No escape begins another. -/
theorem eq_of_isEscape_append {escape escape' rest rest' : Bytes} {code code' : Nat}
    (h : IsEscape escape code) (h' : IsEscape escape' code')
    (same : escape ++ rest = escape' ++ rest') : escape = escape' ∧ rest = rest' := by
  obtain ⟨_, -, ok⟩ := read_append h rest
  obtain ⟨_, -, ok'⟩ := read_append h' rest'
  rw [same, ok'] at ok
  exact List.append_inj same (Prod.mk.inj (Except.ok.inj ok)).2.symm

end Escape

open Escape

theorem IsContents.tail {b : UInt8} {rest : Bytes} (h : IsContents (b :: rest)) (plain : b ≠ 0x5C) :
    b ≠ 0x22 ∧ IsContents rest := by
  generalize whole : b :: rest = raw at h
  cases h with
  | nil => cases whole
  | plain _ noQuote _ contents =>
    cases whole
    exact ⟨noQuote, contents⟩
  | escape isEscape =>
    obtain ⟨tail, rfl⟩ := head_of_isEscape isEscape
    cases whole
    exact absurd rfl plain

theorem IsContents.of_escape_append {escape rest : Bytes} {code : Nat}
    (h : IsContents (escape ++ rest)) (isEscape : IsEscape escape code) : IsContents rest := by
  generalize whole : escape ++ rest = raw at h
  cases h with
  | nil =>
    obtain ⟨tail, rfl⟩ := head_of_isEscape isEscape
    cases whole
  | plain _ _ noBackslash =>
    obtain ⟨tail, rfl⟩ := head_of_isEscape isEscape
    cases whole
    exact absurd rfl noBackslash
  | escape isEscape' contents =>
    obtain ⟨-, rfl⟩ := eq_of_isEscape_append isEscape isEscape' whole
    exact contents

/-- Contents go on as contents after some of their pieces. -/
theorem IsContents.of_denotes_append {front bytes rest : Bytes} (h : IsContents (front ++ rest))
    (denotes : Denotes front bytes) : IsContents rest := by
  induction denotes with
  | nil => exact h
  | plain noBackslash _ ih => exact ih (h.tail noBackslash).2
  | escape isEscape _ ih =>
    rw [List.append_assoc] at h
    exact ih (h.of_escape_append isEscape)

theorem IsContents.exists_denotes {raw : Bytes} (h : IsContents raw) :
    ∃ bytes, Denotes raw bytes := by
  induction h with
  | nil => exact ⟨_, .nil⟩
  | plain _ _ noBackslash _ ih =>
    obtain ⟨bytes, denotes⟩ := ih
    exact ⟨_, .plain noBackslash denotes⟩
  | escape isEscape _ ih =>
    obtain ⟨bytes, denotes⟩ := ih
    obtain ⟨c, rfl, -⟩ := read_append isEscape []
    exact ⟨_, .escape isEscape denotes⟩

theorem IsContents.noControl {raw : Bytes} (h : IsContents raw) : ∀ b ∈ raw, 0x20 ≤ b := by
  induction h with
  | nil => simp
  | plain high _ _ _ ih => exact List.forall_mem_cons.2 ⟨high, ih⟩
  | escape isEscape _ ih =>
    exact List.forall_mem_append.2 ⟨fun b mem => (printable_of_isEscape isEscape b mem).1, ih⟩

/-- Well-formed escapes leave UTF-8 as the only thing to ask for. -/
theorem Escape.Denotes.decodes_iff {raw bytes : Bytes} (h : Denotes raw bytes) :
    (∃ text, decode raw = .ok text) ↔ IsUtf8 raw := by
  rw [← h.isUtf8_iff]
  simp only [decode_eq_ok_iff]
  constructor
  · rintro ⟨text, denotes⟩
    exact ⟨text, h.unique denotes⟩
  · rintro ⟨text, rfl⟩
    exact ⟨text, h⟩

theorem IsContents.wellQuoted {raw : Bytes} (h : IsContents raw) : WellQuoted raw := by
  obtain ⟨bytes, denotes⟩ := h.exists_denotes
  refine ⟨h.noControl, ?_, ⟨bytes, denotes⟩, denotes.decodes_iff⟩
  rintro ⟨plain, front, rest, bytes, rfl, before⟩
  exact ((h.of_denotes_append before).tail plain).1 rfl

/-- A string or a name is written between quotes. -/
theorem Writes.contents {stage next : Stage} {written : Bytes} {lexeme : Lexeme}
    (h : Writes stage written lexeme next)
    (kind : lexeme.kind = .string ∨ lexeme.kind = .propertyName) :
    written = quoted lexeme.raw ∧ IsContents lexeme.raw := by
  cases h with
  | opening | closing => rcases kind with kind | kind <;> cases kind
  | name _ contents => exact ⟨rfl, contents⟩
  | scalar _ scalar =>
    cases scalar with
    | string contents => exact ⟨rfl, contents⟩
    | _ => rcases kind with kind | kind <;> cases kind

namespace Tokenizer

/-- A string or a name that a call gives stands between quotes ahead, with contents in between. -/
theorem quoted_of_next {t : Tokenizer} {token : Token} (h : t.next.1 = .ok (some token))
    (kind : token.kind = .string ∨ token.kind = .propertyName) :
    IsContents token.raw ∧
      ∃ before after, t.cursor.rest = before ++ (quoted token.raw ++ after) := by
  obtain ⟨passed, _, written, ahead, -, took⟩ :=
    took_of_next (Prod.ext h rfl : t.next = (_, t.next.2))
  obtain ⟨same, contents⟩ := took.writes.contents kind
  exact ⟨contents, passed, _, same ▸ ahead⟩

theorem isUtf8_of_next {t : Tokenizer} {token : Token} (h : t.next.1 = .ok (some token))
    (kind : token.kind = .string ∨ token.kind = .propertyName) (utf8 : IsUtf8 t.cursor.input) :
    IsUtf8 token.raw := by
  obtain ⟨-, before, after, ahead⟩ := quoted_of_next h kind
  obtain ⟨chars, forms⟩ := isUtf8_iff.1 utf8
  -- The quotes are ASCII, so that the input may be cut at each.
  have input : ofChars chars = (t.cursor.input.take t.position ++ before) ++
      0x22 :: (token.raw ++ 0x22 :: after) := by
    have whole := List.take_append_drop t.position t.cursor.input
    rw [← t.rest_eq_drop, ahead] at whole
    rw [← forms]
    refine whole.symm.trans ?_
    simp [quoted]
  obtain ⟨-, back⟩ := ofChars_split (by decide) input
  obtain ⟨chars, forms⟩ := isUtf8_iff.1 back
  exact (ofChars_split (by decide) forms.symm).1

/-- A scalar made from a token is the one made from its bytes. -/
theorem ofToken?_of_next {t : Tokenizer} {token : Token} (h : t.next.1 = .ok (some token)) :
    Scalar.ofToken? token = token.kind.scalarKind?.map (Scalar.ofRaw · token.raw) := by
  rw [Scalar.ofToken?, escaped_of_next h]
  rfl

/-- Strings and names decode just where they are UTF-8, and all of them do in an input that is
UTF-8. This holds of each call over an input, also after calls that gave errors: between the quotes
stand no control and no quote outside of an escape, the flag tells whether there is a backslash, and
all escapes are well formed on their own. Scalars made from tokens are those made from their bytes.
-/
theorem strings_decode {o : Options} {input : Bytes} {n : Nat} {token : Token}
    (given : ((start o input).after n).next.1 = .ok (some token)) :
    (token.kind = .string ∨ token.kind = .propertyName →
      WellQuoted token.raw ∧ (token.escaped = true ↔ 0x5C ∈ token.raw) ∧
        (IsUtf8 input → ∃ text, decode token.raw = .ok text)) ∧
    (token.kind = .string → IsUtf8 input →
      ∃ scalar text, Scalar.ofToken? token = some scalar ∧ scalar.text? = some text) ∧
    Scalar.ofToken? token = token.kind.scalarKind?.map (Scalar.ofRaw · token.raw) := by
  have made := ofToken?_of_next given
  have quoted (kind : token.kind = .string ∨ token.kind = .propertyName) :
      WellQuoted token.raw ∧ (token.escaped = true ↔ 0x5C ∈ token.raw) ∧
        (IsUtf8 input → ∃ text, decode token.raw = .ok text) := by
    have wellQuoted := (quoted_of_next given kind).1.wellQuoted
    refine ⟨wellQuoted, ?_, fun utf8 => wellQuoted.decodes.2 (isUtf8_of_next given kind ?_)⟩
    · rw [escaped_of_next given, hasEscape, List.contains_iff_mem]
    · rwa [input_after]
  refine ⟨quoted, fun kind utf8 => ?_, made⟩
  obtain ⟨text, decoded⟩ := (quoted (.inl kind)).2.2 utf8
  rw [kind] at made
  refine ⟨_, text, made, ?_⟩
  change (if ScalarKind.string = .string then (decode token.raw).toOption else none) = some text
  rw [if_pos rfl, decoded]
  rfl

/-- Of the bytes `["\t1`, a line feed and `,"b\""]`, the string that is opened first is refused for
the line feed. The calls after that read a number, and then the string `b\"`. -/
theorem strings_decode_after_error :
    let input : Bytes :=
      [0x5B, 0x22, 0x5C, 0x74, 0x31, 0x0A, 0x2C, 0x22, 0x62, 0x5C, 0x22, 0x22, 0x5D]
    ((start .strict input).after 1).next.1 = .error ⟨.controlInString, 4⟩ ∧
    ((start .strict input).after 3).next.1 = .ok (some ⟨.string, [0x62, 0x5C, 0x22], 7, 12, true⟩) ∧
    ∃ text, decode [0x62, 0x5C, 0x22] = .ok text := by
  intro input
  have first : (start .strict input).feed =
      ⟨[⟨⟨.opening .array, [0x5B], 0, 1, false⟩, 1⟩], some ⟨.controlInString, 4⟩⟩ := by
    decide +kernel
  have second : ((start .strict input).after 2).feed =
      ⟨[⟨⟨.number, [0x31], 4, 5, false⟩, 1⟩, ⟨⟨.string, [0x62, 0x5C, 0x22], 7, 12, true⟩, 1⟩,
        ⟨⟨.closing .array, [0x5D], 12, 13, false⟩, 0⟩], none⟩ := by decide +kernel
  have refused := next_of_failure (congrArg Feed.failure first)
  rw [first] at refused
  have given : ((start .strict input).after 3).next.1 =
      .ok (some ⟨.string, [0x62, 0x5C, 0x22], 7, 12, true⟩) :=
    next_of_pull (congrArg (·.pulls[1]?) second)
  have utf8 : IsUtf8 input := isUtf8_of_ascii (by simp [input])
  exact ⟨refused, given, ((strings_decode given).1 (.inl rfl)).2.2 utf8⟩

end Tokenizer

end PathFold.Json
