import PathFold.Error
import PathFold.Except
import PathFold.Json.Scalar
import PathFold.Json.Tokenizer.Run
import PathFold.Proofs.Layout.Call
import PathFold.Proofs.Strings.Decoding

/-! Comparing the contents of a string with expected bytes as they are decoded. It comes to what
decoding and then comparing would, and needs no text in between; so a string scalar denotes a text
just if it decodes to it. -/

namespace PathFold.Json

open PathFold.Bytes

namespace Escape

theorem denotes_plain_iff {b : UInt8} (h : b ≠ 0x5C) {raw bytes : Bytes} :
    Denotes (b :: raw) bytes ↔ ∃ rest, bytes = b :: rest ∧ Denotes raw rest := by
  constructor
  · intro denotes
    have whole := denotes.unescape_eq
    rw [unescape_of_plain h] at whole
    obtain ⟨rest, ok, rfl⟩ := Except.map_eq_ok_iff.1 whole
    exact ⟨rest, rfl, unescape_eq_ok_iff.1 ok⟩
  · rintro ⟨rest, rfl, denotes⟩
    exact .plain h denotes

theorem denotes_escape_iff {escape : Bytes} {c : Char} (h : IsEscape escape c.toNat)
    {raw bytes : Bytes} : Denotes (escape ++ raw) bytes ↔
      ∃ rest, bytes = String.utf8EncodeChar c ++ rest ∧ Denotes raw rest := by
  constructor
  · intro denotes
    have whole := denotes.unescape_eq
    rw [unescape_of_isEscape h] at whole
    obtain ⟨rest, ok, rfl⟩ := Except.map_eq_ok_iff.1 whole
    exact ⟨rest, rfl, unescape_eq_ok_iff.1 ok⟩
  · rintro ⟨rest, rfl, denotes⟩
    exact .escape h denotes

/-- The comparison holds of what the contents stand for, and of nothing if an escape is not well
formed. -/
theorem spells_iff_denotes (raw expected : Bytes) :
    spells raw expected = true ↔ Denotes raw expected := by
  fun_induction spells raw expected with
  | case1 expected =>
    rw [List.isEmpty_iff]
    constructor
    · rintro rfl
      exact .nil
    · exact fun denotes => denotes.unique .nil
  | case2 expected rest fault refused =>
    have bad := unescape_of_isBadEscape (isBadEscape_of_read refused)
    simp only [Bool.false_eq_true, false_iff]
    intro denotes
    rw [denotes.unescape_eq] at bad
    cases bad
  | case3 expected rest c n form ok ih =>
    obtain ⟨escape, after, whole, rfl, isEscape⟩ := isEscape_of_read ok
    rw [whole, List.drop_left] at ih
    rw [whole, List.drop_left, denotes_escape_iff isEscape, Bool.and_eq_true, ih,
      List.isPrefixOf_iff_prefix]
    constructor
    · rintro ⟨⟨rest, rfl⟩, denotes⟩
      rw [List.drop_left] at denotes
      exact ⟨rest, rfl, denotes⟩
    · rintro ⟨rest, rfl, denotes⟩
      refine ⟨List.prefix_append _ _, ?_⟩
      rwa [List.drop_left]
  | case4 b rest noBackslash =>
    rw [denotes_plain_iff noBackslash]
    simp
  | case5 b rest noBackslash e es ih =>
    rw [denotes_plain_iff noBackslash, Bool.and_eq_true, ih, beq_iff_eq]
    constructor
    · rintro ⟨rfl, denotes⟩
      exact ⟨es, rfl, denotes⟩
    · rintro ⟨rest, same, denotes⟩
      cases same
      exact ⟨rfl, denotes⟩

theorem decodesTo_iff_denotes {raw expected : Bytes} :
    decodesTo raw expected = true ↔ Denotes raw expected := by
  unfold decodesTo
  split
  · exact spells_iff_denotes raw expected
  · rename_i plain
    have itself := denotes_of_not_hasEscape plain
    rw [beq_iff_eq]
    constructor
    · rintro rfl
      exact itself
    · exact itself.unique

theorem decodesTo_ofText_iff {raw : Bytes} {text : String} :
    decodesTo raw (ofText text) = true ↔ decode raw = .ok text := by
  rw [decodesTo_iff_denotes, decode_eq_ok_iff]

end Escape

namespace Scalar

/-- A scalar whose flag tells of its escapes denotes a text just if it decodes to it. -/
theorem isText_iff {scalar : Scalar} (h : scalar.escaped = Escape.hasEscape scalar.raw)
    (text : String) : scalar.isText (ofText text) = true ↔ scalar.text? = some text := by
  have direct : (if scalar.escaped then Escape.decodesTo scalar.raw (ofText text)
      else scalar.raw == ofText text) = Escape.decodesTo scalar.raw (ofText text) := by
    rw [h, Escape.decodesTo]
    split <;> rfl
  unfold isText text?
  rw [direct]
  by_cases string : scalar.kind = .string
  · rw [if_pos string, decide_eq_true string, Bool.true_and, Escape.decodesTo_ofText_iff]
    cases Escape.decode scalar.raw <;> simp [Except.toOption]
  · simp [string]

end Scalar

namespace Tokenizer

/-- The flag of a token tells whether its bytes hold an escape. -/
theorem escaped_of_next {t : Tokenizer} {token : Token} (h : t.next.1 = .ok (some token)) :
    token.escaped = Escape.hasEscape token.raw := by
  obtain ⟨_, _, _, -, -, took⟩ := took_of_next (Prod.ext h rfl : t.next = (_, t.next.2))
  exact took.escaped

end Tokenizer

/-- Comparing as one decodes agrees with decoding first. It holds just for the text if there is one,
for nothing if an escape is not well formed, and for bytes that are not UTF-8 at most if the
contents stand for such. So a scalar, made from raw bytes or from a token, denotes a text just if it
decodes to it. -/
theorem decodesTo_agrees_with_decode :
    (∀ raw expected, match Escape.decode raw with
      | .ok text => Escape.decodesTo raw expected = true ↔ ofText text = expected
      | .error (.escape _) => Escape.decodesTo raw expected = false
      | .error .invalidUtf8 => Escape.decodesTo raw expected = true → ¬ IsUtf8 expected) ∧
    (∀ kind raw text, (Scalar.ofRaw kind raw).isText (ofText text) = true ↔
      (Scalar.ofRaw kind raw).text? = some text) ∧
    ∀ o input n token scalar,
      ((Tokenizer.start o input).after n).next.1 = .ok (some token) →
      Scalar.ofToken? token = some scalar →
      ∀ text, scalar.isText (ofText text) = true ↔ scalar.text? = some text := by
  refine ⟨fun raw expected => ?_, fun kind raw text => Scalar.isText_iff rfl text, ?_⟩
  · split
    · rename_i text decoded
      have denotes := Escape.decode_eq_ok_iff.1 decoded
      rw [Escape.decodesTo_iff_denotes]
      exact ⟨denotes.unique, fun same => same ▸ denotes⟩
    · rename_i fault refused
      obtain ⟨front, rest, bytes, rfl, denotes, bad⟩ := Escape.decode_eq_escape_iff.1 refused
      rw [← Bool.not_eq_true, Escape.decodesTo_iff_denotes]
      intro whole
      have both := whole.unescape_eq
      rw [denotes.unescape_append, Escape.unescape_of_isBadEscape bad] at both
      cases both
    · rename_i refused
      obtain ⟨bytes, denotes, notUtf8⟩ := Escape.decode_eq_invalidUtf8_iff.1 refused
      intro holds
      rwa [(Escape.decodesTo_iff_denotes.1 holds).unique denotes]
  · intro o input n token scalar given made text
    obtain ⟨kind, -, rfl⟩ := Option.map_eq_some_iff.1 made
    exact Scalar.isText_iff (Tokenizer.escaped_of_next given) text

/-- The string `"\u0054X"`, whose escape stands for the letter before the `X`. -/
theorem decodesTo_agrees_with_decode_letter :
    let raw : Bytes := [0x5C, 0x75, 0x30, 0x30, 0x35, 0x34, 0x58]
    ((Tokenizer.start .strict (quoted raw)).after 0).next.1 =
      .ok (some ⟨.string, raw, 0, 9, true⟩) ∧
    (Scalar.mk .string raw true).text? = some "TX" := by
  intro raw
  have feed : (Tokenizer.start .strict (quoted raw)).feed =
      ⟨[⟨⟨.string, raw, 0, 9, true⟩, 0⟩], none⟩ := by decide +kernel
  have given := Tokenizer.next_of_pull (congrArg (·.pulls[0]?) feed)
  have denotes : (Scalar.mk .string raw true).isText (ofText "TX") = true := by decide +kernel
  exact ⟨given, (decodesTo_agrees_with_decode.2.2 _ _ 0 _ _ given rfl "TX").1 denotes⟩

end PathFold.Json
