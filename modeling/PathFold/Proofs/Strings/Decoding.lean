import PathFold.Proofs.Strings.Spelling

/-! Decoding undoes spelling. A text is decoded from its spellings and from nothing else; contents
that spell none are refused for the first escape that is not well formed, and only if all are, for
not being UTF-8. -/

namespace PathFold.Json.Escape

open PathFold.Bytes

/-- Decoding without regard to whether there is an escape. -/
def decodeEscapes (raw : Bytes) : Except DecodeFault String :=
  match unescape raw with
  | .error fault => .error (.escape fault)
  | .ok bytes =>
    match toText? bytes with
    | some text => .ok text
    | none => .error .invalidUtf8

/-- Contents without an escape need no replacement. -/
theorem decode_eq_decodeEscapes (raw : Bytes) : decode raw = decodeEscapes raw := by
  have same : (if hasEscape raw then unescape raw else .ok raw) = unescape raw := by
    by_cases escaped : hasEscape raw = true
    · exact if_pos escaped
    · rw [if_neg escaped, (denotes_of_not_hasEscape escaped).unescape_eq]
  unfold decode
  rw [same]
  rfl

theorem Denotes.decode_eq {raw bytes : Bytes} (h : Denotes raw bytes) :
    decode raw =
      match toText? bytes with
      | some text => .ok text
      | none => .error .invalidUtf8 := by
  rw [decode_eq_decodeEscapes, decodeEscapes, h.unescape_eq]

theorem Denotes.decode_append_eq {front bytes rest : Bytes} {fault : EscapeFault}
    (h : Denotes front bytes) (bad : IsBadEscape rest fault) :
    decode (front ++ rest) = .error (.escape fault) := by
  rw [decode_eq_decodeEscapes, decodeEscapes, h.unescape_append, unescape_of_isBadEscape bad]
  rfl

theorem decode_eq_ok_iff {raw : Bytes} {text : String} :
    decode raw = .ok text ↔ Denotes raw (ofText text) := by
  constructor
  · intro h
    rcases denotes_or_isBadEscape raw with ⟨bytes, denotes⟩ | ⟨front, rest, _, _, rfl, denotes, bad⟩
    · rw [denotes.decode_eq] at h
      split at h
      · rename_i found
        cases h
        exact toText?_eq_some_iff.1 found ▸ denotes
      · cases h
    · rw [denotes.decode_append_eq bad] at h
      cases h
  · intro denotes
    rw [denotes.decode_eq, toText?_eq_some_iff.2 rfl]

theorem decode_eq_ok_iff_isSpelling {raw : Bytes} {text : String} :
    decode raw = .ok text ↔ IsSpelling raw text.toList := by
  rw [decode_eq_ok_iff, isSpelling_iff_denotes, ofText_eq_ofChars]

theorem decode_eq_escape_iff {raw : Bytes} {fault : EscapeFault} :
    decode raw = .error (.escape fault) ↔ ∃ front rest bytes, raw = front ++ rest ∧
      Denotes front bytes ∧ IsBadEscape rest fault := by
  rw [← unescape_eq_error_iff, decode_eq_decodeEscapes, decodeEscapes]
  cases unescape raw with
  | error other => simp
  | ok bytes =>
    dsimp only
    split <;> simp

theorem decode_eq_invalidUtf8_iff {raw : Bytes} :
    decode raw = .error .invalidUtf8 ↔ ∃ bytes, Denotes raw bytes ∧ ¬ IsUtf8 bytes := by
  constructor
  · intro h
    rcases denotes_or_isBadEscape raw with ⟨bytes, denotes⟩ | ⟨front, rest, _, _, rfl, denotes, bad⟩
    · refine ⟨bytes, denotes, toText?_eq_none_iff.1 ?_⟩
      rw [denotes.decode_eq] at h
      split at h
      · cases h
      · assumption
    · rw [denotes.decode_append_eq bad] at h
      cases h
  · rintro ⟨bytes, denotes, notUtf8⟩
    rw [denotes.decode_eq, toText?_eq_none_iff.2 notUtf8]

/-- Every cause has a wording of its own. -/
theorem eq_of_message_eq {fault other : DecodeFault} (h : fault.message = other.message) :
    fault = other := by
  cases fault with
  | invalidUtf8 =>
    cases other with
    | invalidUtf8 => rfl
    | escape other => cases other <;> exact absurd h (by decide)
  | escape fault =>
    cases other with
    | invalidUtf8 => cases fault <;> exact absurd h (by decide)
    | escape other =>
      cases fault <;> cases other <;> first | rfl | exact absurd h (by decide)

/-- Decoding gives a text just for its spellings: for contents whose pieces stand for the UTF-8 form
of the text, each character being written as it is or as one escape. Otherwise it gives the fault of
the first escape that is not well formed, or that what the pieces stand for is not UTF-8; that an
escape stands for no character is never reported, and contents without an escape make no difference.
-/
theorem decode_undoes_spelling (raw : Bytes) :
    (∀ text, decode raw = .ok text ↔ Denotes raw (ofText text)) ∧
    (∀ text, decode raw = .ok text ↔ IsSpelling raw text.toList) ∧
    (∀ fault, decode raw = .error (.escape fault) ↔ ∃ front rest bytes, raw = front ++ rest ∧
      Denotes front bytes ∧ IsBadEscape rest fault) ∧
    ((decode raw).mapError DecodeFault.message = .error "Invalid UTF-8 in string" ↔
      ∃ bytes, Denotes raw bytes ∧ ¬ IsUtf8 bytes) ∧
    (decode raw).mapError DecodeFault.message ≠ .error "Invalid unicode escape" ∧
    decode raw = decodeEscapes raw := by
  refine ⟨fun _ => decode_eq_ok_iff, fun _ => decode_eq_ok_iff_isSpelling,
    fun _ => decode_eq_escape_iff, ?_, ?_, decode_eq_decodeEscapes raw⟩
  · rw [← decode_eq_invalidUtf8_iff]
    constructor
    · intro h
      obtain ⟨fault, failed, worded⟩ := Except.mapError_eq_error_iff.1 h
      obtain rfl : fault = .invalidUtf8 := eq_of_message_eq worded
      exact failed
    · intro failed
      rw [failed]
      rfl
  · intro h
    obtain ⟨fault, failed, worded⟩ := Except.mapError_eq_error_iff.1 h
    obtain rfl : fault = .escape .notACharacter := eq_of_message_eq worded
    obtain ⟨_, _, _, -, -, bad⟩ := decode_eq_escape_iff.1 failed
    exact ne_notACharacter_of_isBadEscape bad rfl

/-- An escape inside the form of `é` stands for a whole form there. -/
example : decode [0xC3, 0x5C, 0x6E, 0xA9] = .error .invalidUtf8 := by cbv

end PathFold.Json.Escape
