import PathFold.Proofs.Strings.Denotation
import PathFold.Proofs.Strings.Utf8

/-! How a text may be written between quotes, and that decoding finds it again. Plain bytes and
escapes may come in any mix; they stand for a text just if each character is written whole, as its
UTF-8 form or as one escape. -/

namespace PathFold.Json.Escape

open PathFold.Bytes

/-- The spellings of a text: each character is written as it is, unless it is a backslash, or as an
escape that stands for it. -/
inductive IsSpelling : Bytes → List Char → Prop
  | nil : IsSpelling [] []
  | literal {raw c chars} : c ≠ '\\' → IsSpelling raw chars →
      IsSpelling (String.utf8EncodeChar c ++ raw) (c :: chars)
  | escape {escape raw c chars} : IsEscape escape (Char.toNat c) → IsSpelling raw chars →
      IsSpelling (escape ++ raw) (c :: chars)

/-- A backslash is in no form but its own. -/
theorem ne_backslash_of_mem_form {c : Char} (h : c ≠ '\\') :
    ∀ b ∈ String.utf8EncodeChar c, b ≠ 0x5C := by
  rintro b mem rfl
  exact h (Char.toNat_inj.1 (eq_of_mem_form (by decide) mem))

theorem Denotes.plain_append {front raw bytes : Bytes} (plain : ∀ b ∈ front, b ≠ 0x5C)
    (h : Denotes raw bytes) : Denotes (front ++ raw) (front ++ bytes) := by
  induction front with
  | nil => exact h
  | cons b front ih =>
    obtain ⟨first, others⟩ := List.forall_mem_cons.1 plain
    exact .plain first (ih others)

theorem IsSpelling.denotes {raw : Bytes} {chars : List Char} (h : IsSpelling raw chars) :
    Denotes raw (ofChars chars) := by
  induction h with
  | nil => exact .nil
  | literal noBackslash _ ih => exact ih.plain_append (ne_backslash_of_mem_form noBackslash)
  | escape isEscape _ ih => exact .escape isEscape ih

/-- A form that begins with a first byte begins nowhere inside a form. -/
theorem eq_nil_of_form_append {c : Char} {tail bytes rest : Bytes}
    (inner : ∀ b ∈ tail, ¬ b.IsUTF8FirstByte)
    (same : String.utf8EncodeChar c ++ bytes = tail ++ rest) : tail = [] := by
  obtain ⟨b, others, form, first, -⟩ := form_eq_cons c
  cases tail with
  | nil => rfl
  | cons b' tail =>
    rw [form] at same
    obtain ⟨rfl, -⟩ := List.cons.inj same
    exact absurd first (inner _ List.mem_cons_self)

/-- Where pieces stand for the rest of a form and a text after it, the rest of the form is written
as it is: an escape stands for a whole form. -/
theorem Denotes.spelling_of_inner {raw bytes : Bytes} (h : Denotes raw bytes) {tail : Bytes}
    {chars : List Char} (inner : ∀ b ∈ tail, ¬ b.IsUTF8FirstByte)
    (same : bytes = tail ++ ofChars chars) :
    ∃ rest, raw = tail ++ rest ∧ IsSpelling rest chars := by
  induction h generalizing tail chars with
  | nil =>
    obtain ⟨rfl, none⟩ := List.append_eq_nil_iff.1 same.symm
    obtain rfl : chars = [] := ofChars_inj none
    exact ⟨[], rfl, .nil⟩
  | @plain b raw bytes noBackslash _ ih =>
    cases tail with
    | cons b' tail =>
      obtain ⟨rfl, later⟩ := List.cons.inj same
      obtain ⟨-, inner⟩ := List.forall_mem_cons.1 inner
      obtain ⟨rest, rfl, spelling⟩ := ih inner later
      exact ⟨rest, rfl, spelling⟩
    | nil =>
      cases chars with
      | nil => cases same
      | cons c chars =>
        obtain ⟨first, tail, form, -, inner⟩ := form_eq_cons c
        rw [List.nil_append, ofChars_cons, form] at same
        obtain ⟨rfl, later⟩ := List.cons.inj same
        obtain ⟨rest, rfl, spelling⟩ := ih inner later
        have notBackslash : c ≠ '\\' := by
          rintro rfl
          cases form
          exact noBackslash rfl
        refine ⟨_, rfl, ?_⟩
        have whole := IsSpelling.literal notBackslash spelling
        rwa [form] at whole
  | @escape escape raw bytes c isEscape _ ih =>
    obtain rfl := eq_nil_of_form_append inner same
    cases chars with
    | nil => simp at same
    | cons d chars =>
      rw [List.nil_append, ofChars_cons] at same
      obtain ⟨rfl, later⟩ := eq_of_form_append same
      obtain ⟨rest, rfl, spelling⟩ := ih (List.forall_mem_nil _) later
      exact ⟨_, rfl, .escape isEscape spelling⟩

/-- Contents that stand for the UTF-8 form of a text spell it. -/
theorem isSpelling_iff_denotes {raw : Bytes} {chars : List Char} :
    IsSpelling raw chars ↔ Denotes raw (ofChars chars) := by
  refine ⟨IsSpelling.denotes, fun h => ?_⟩
  obtain ⟨rest, rfl, spelling⟩ := h.spelling_of_inner (List.forall_mem_nil _) rfl
  exact spelling

theorem printable_of_isHex4 {digits : Bytes} {code : Nat} (h : IsHex4 digits code) :
    ∀ b ∈ digits, 0x20 ≤ b ∧ b < 0x80 := by
  intro b mem
  obtain ⟨value, digit⟩ := isHexDigit_of_mem h b mem
  rw [UInt8.le_iff_toNat_le, UInt8.lt_iff_toNat_lt]
  unfold IsHexDigit at digit
  have low : (0x20 : UInt8).toNat = 0x20 := rfl
  have high : (0x80 : UInt8).toNat = 0x80 := rfl
  omega

/-- An escape is written in ASCII, without controls. -/
theorem printable_of_isEscape {escape : Bytes} {code : Nat} (h : IsEscape escape code) :
    ∀ b ∈ escape, 0x20 ≤ b ∧ b < 0x80 := by
  have announced (second : UInt8) (rest : Bytes) (h : 0x20 ≤ second ∧ second < 0x80)
      (printable : ∀ b ∈ rest, 0x20 ≤ b ∧ b < 0x80) :
      ∀ b ∈ 0x5C :: second :: rest, 0x20 ≤ b ∧ b < 0x80 :=
    List.forall_mem_cons.2 ⟨by decide, List.forall_mem_cons.2 ⟨h, printable⟩⟩
  cases h with
  | simple known =>
    have shown : ∀ entry ∈ simpleEscapes, 0x20 ≤ entry.1 ∧ entry.1 < 0x80 := by decide
    exact announced _ [] (shown _ known) (List.forall_mem_nil _)
  | unit hex => exact announced 0x75 _ (by decide) (printable_of_isHex4 hex)
  | pair hex _ _ hex' =>
    exact announced 0x75 _ (by decide) (List.forall_mem_append.2
      ⟨printable_of_isHex4 hex, announced 0x75 _ (by decide) (printable_of_isHex4 hex')⟩)

theorem ascii_of_isEscape {escape : Bytes} {code : Nat} (h : IsEscape escape code) :
    ∀ b ∈ escape, b < 0x80 := fun b mem => (printable_of_isEscape h b mem).2

/-- A spelling is UTF-8 itself. -/
theorem IsSpelling.isUtf8 {raw : Bytes} {chars : List Char} (h : IsSpelling raw chars) :
    IsUtf8 raw := by
  induction h with
  | nil => exact isUtf8_ofChars []
  | literal _ _ ih => exact (isUtf8_form _).append ih
  | escape isEscape _ ih => exact (isUtf8_of_ascii (ascii_of_isEscape isEscape)).append ih

/-- Where pieces are written as the rest of a form and a text after it, they stand for the rest of
the form and a text. -/
theorem Denotes.isUtf8_of_inner {raw bytes : Bytes} (h : Denotes raw bytes) {tail : Bytes}
    {chars : List Char} (inner : ∀ b ∈ tail, ¬ b.IsUTF8FirstByte)
    (same : raw = tail ++ ofChars chars) : ∃ rest, bytes = tail ++ rest ∧ IsUtf8 rest := by
  induction h generalizing tail chars with
  | nil =>
    obtain ⟨rfl, -⟩ := List.append_eq_nil_iff.1 same.symm
    exact ⟨[], rfl, isUtf8_ofChars []⟩
  | @plain b raw bytes _ _ ih =>
    cases tail with
    | cons b' tail =>
      obtain ⟨rfl, later⟩ := List.cons.inj same
      obtain ⟨-, inner⟩ := List.forall_mem_cons.1 inner
      obtain ⟨rest, rfl, isUtf8⟩ := ih inner later
      exact ⟨rest, rfl, isUtf8⟩
    | nil =>
      cases chars with
      | nil => cases same
      | cons c chars =>
        obtain ⟨first, tail, form, -, inner⟩ := form_eq_cons c
        rw [List.nil_append, ofChars_cons, form] at same
        obtain ⟨rfl, later⟩ := List.cons.inj same
        obtain ⟨rest, rfl, isUtf8⟩ := ih inner later
        have whole := (isUtf8_form c).append isUtf8
        rw [form] at whole
        exact ⟨_, rfl, whole⟩
  | @escape escape raw bytes c isEscape _ ih =>
    have ascii := ascii_of_isEscape isEscape
    cases tail with
    | cons b tail =>
      obtain ⟨others, rfl⟩ := head_of_isEscape isEscape
      obtain ⟨rfl, -⟩ := List.cons.inj same
      exact absurd (isFirst_of_ascii (by decide)) (inner _ List.mem_cons_self)
    | nil =>
      obtain ⟨others, same⟩ := ofChars_of_ascii_append ascii same
      obtain ⟨rest, rfl, isUtf8⟩ := ih (List.forall_mem_nil _) same
      exact ⟨_, rfl, (isUtf8_form c).append isUtf8⟩

/-- Replacing escapes by characters neither mends nor breaks UTF-8. -/
theorem Denotes.isUtf8_iff {raw bytes : Bytes} (h : Denotes raw bytes) :
    IsUtf8 bytes ↔ IsUtf8 raw := by
  rw [Bytes.isUtf8_iff, @Bytes.isUtf8_iff raw]
  constructor
  · rintro ⟨chars, rfl⟩
    exact Bytes.isUtf8_iff.1 (isSpelling_iff_denotes.2 h).isUtf8
  · rintro ⟨chars, rfl⟩
    obtain ⟨rest, rfl, isUtf8⟩ := h.isUtf8_of_inner (List.forall_mem_nil _) rfl
    exact Bytes.isUtf8_iff.1 isUtf8

end PathFold.Json.Escape
