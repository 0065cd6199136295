import PathFold.Bytes

/-! UTF-8 as a concatenation of forms, one for each character. A form is told by its first byte, and
no other byte of it can be the first of a form; so bytes that are UTF-8 split into forms in one way,
and a byte of ASCII stands between whole forms. -/

namespace PathFold.Bytes

/-- The UTF-8 forms of characters, one after the other. -/
def ofChars (chars : List Char) : Bytes := chars.flatMap String.utf8EncodeChar

/-- Whether bytes are the UTF-8 form of a text. -/
def IsUtf8 (bytes : Bytes) : Prop := ∃ text, bytes = ofText text

@[simp] theorem ofChars_nil : ofChars [] = [] := rfl

@[simp] theorem ofChars_cons (c : Char) (chars : List Char) :
    ofChars (c :: chars) = String.utf8EncodeChar c ++ ofChars chars := rfl

theorem toList_loop (bytes : ByteArray) (i : Nat) (done : Bytes) :
    ByteArray.toList.loop bytes i done = done.reverse ++ bytes.data.toList.drop i := by
  fun_induction ByteArray.toList.loop bytes i done with
  | case1 i done inside ih =>
    have within : i < bytes.data.toList.length := by simpa using inside
    rw [ih, List.drop_eq_getElem_cons within]
    simp [ByteArray.get!, inside]
  | case2 i done outside =>
    rw [List.drop_eq_nil_of_le (by simpa using Nat.le_of_not_lt outside), List.append_nil]

theorem toList_eq (bytes : ByteArray) : bytes.toList = bytes.data.toList := toList_loop bytes 0 []

theorem ofText_eq_ofChars (text : String) : ofText text = ofChars text.toList := by
  rw [ofText, toList_eq, ← String.utf8Encode_toList, List.utf8Encode, List.toList_data_toByteArray,
    ofChars]

theorem ofText_ofList (chars : List Char) : ofText (String.ofList chars) = ofChars chars := by
  rw [ofText_eq_ofChars, String.toList_ofList]

theorem isUtf8_ofChars (chars : List Char) : IsUtf8 (ofChars chars) :=
  ⟨String.ofList chars, (ofText_ofList chars).symm⟩

theorem isUtf8_iff {bytes : Bytes} : IsUtf8 bytes ↔ ∃ chars, bytes = ofChars chars := by
  constructor
  · rintro ⟨text, rfl⟩
    exact ⟨text.toList, ofText_eq_ofChars text⟩
  · rintro ⟨chars, rfl⟩
    exact isUtf8_ofChars chars

theorem toByteArray_ofText (text : String) : (ofText text).toByteArray = text.toByteArray := by
  rw [ofText, toList_eq]
  exact ByteArray.ext (by simp)

/-- Reading as text undoes writing as UTF-8, and succeeds on nothing else. -/
theorem toText?_eq_some_iff {bytes : Bytes} {text : String} :
    toText? bytes = some text ↔ bytes = ofText text := by
  unfold toText? String.fromUTF8?
  constructor
  · intro h
    split at h
    · cases h
      rw [ofText, toList_eq]
      exact List.toList_data_toByteArray.symm
    · cases h
  · rintro rfl
    have same := toByteArray_ofText text
    have valid : (ofText text).toByteArray.IsValidUTF8 := same ▸ text.isValidUTF8
    rw [dif_pos valid, Option.some.injEq]
    exact String.toByteArray_inj.1 same

theorem toText?_eq_none_iff {bytes : Bytes} : toText? bytes = none ↔ ¬ IsUtf8 bytes := by
  rw [Option.eq_none_iff_forall_ne_some]
  simp only [ne_eq, toText?_eq_some_iff, IsUtf8, not_exists]

/-- No form begins another. -/
theorem eq_of_form_append {c d : Char} {rest rest' : Bytes}
    (h : String.utf8EncodeChar c ++ rest = String.utf8EncodeChar d ++ rest') :
    c = d ∧ rest = rest' := by
  have first (c : Char) (rest : Bytes) :
      (String.utf8EncodeChar c ++ rest).toByteArray.utf8DecodeChar? 0 = some c := by
    rw [List.toByteArray_append]
    exact ByteArray.utf8DecodeChar?_utf8EncodeChar_append
  have same := first c rest
  rw [h, first] at same
  cases same
  exact ⟨rfl, List.append_cancel_left h⟩

theorem ofChars_inj {chars chars' : List Char} (h : ofChars chars = ofChars chars') :
    chars = chars' := by
  rw [← ofText_ofList, ← ofText_ofList, ← toText?_eq_some_iff,
    toText?_eq_some_iff.2 rfl, Option.some.injEq] at h
  exact String.ofList_injective h

/-- A form is a first byte and bytes that are no first byte. -/
theorem form_eq_cons (c : Char) : ∃ b tail, String.utf8EncodeChar c = b :: tail ∧
    b.IsUTF8FirstByte ∧ ∀ b ∈ tail, ¬ b.IsUTF8FirstByte := by
  cases form : String.utf8EncodeChar c with
  | nil => exact absurd form String.utf8EncodeChar_ne_nil
  | cons b tail =>
    have first {i : Nat} (inside : i < (b :: tail).length) :
        (b :: tail)[i].IsUTF8FirstByte ↔ i = 0 := by
      simp only [← form]
      exact UInt8.isUTF8FirstByte_getElem_utf8EncodeChar
    refine ⟨b, tail, rfl, (first (Nat.succ_pos _)).2 rfl, fun b mem isFirst => ?_⟩
    obtain ⟨i, inside, rfl⟩ := List.mem_iff_getElem.1 mem
    exact absurd ((first (Nat.succ_lt_succ inside)).1 isFirst) (Nat.succ_ne_zero i)

/-- A byte of ASCII is a form by itself. -/
theorem form_of_ascii {b : UInt8} (h : b < 0x80) :
    ∃ c : Char, c.toNat = b.toNat ∧ String.utf8EncodeChar c = [b] := by
  refine ⟨Char.ofUInt8 b, rfl, ?_⟩
  have small : b.toNat ≤ 0x7F := Nat.le_of_lt_succ (UInt8.lt_iff_toNat_lt.1 h)
  have value : (Char.ofUInt8 b).val.toNat = b.toNat := rfl
  rw [String.utf8EncodeChar, value, if_pos small]
  simp

theorem isFirst_of_ascii {b : UInt8} (h : b < 0x80) : b.IsUTF8FirstByte := by
  obtain ⟨c, -, form⟩ := form_of_ascii h
  obtain ⟨first, tail, form', isFirst, -⟩ := form_eq_cons c
  rw [form] at form'
  cases form'
  exact isFirst

/-- A byte of ASCII is in no form but its own. -/
theorem eq_of_mem_form {b : UInt8} {c : Char} (h : b < 0x80) (mem : b ∈ String.utf8EncodeChar c) :
    c.toNat = b.toNat := by
  obtain ⟨first, tail, form, -, inner⟩ := form_eq_cons c
  obtain ⟨d, code, form'⟩ := form_of_ascii h
  rw [form] at mem
  rcases List.mem_cons.1 mem with rfl | mem
  · have same : String.utf8EncodeChar c ++ [] = String.utf8EncodeChar d ++ tail := by
      rw [form, form', List.append_nil, List.singleton_append]
    rw [(eq_of_form_append same).1, code]
  · exact absurd (isFirst_of_ascii h) (inner b mem)

/-- Of the characters whose forms begin with a byte of ASCII, that byte is the first. -/
theorem ofChars_of_ascii {b : UInt8} {rest : Bytes} {chars : List Char} (h : b < 0x80)
    (same : b :: rest = ofChars chars) :
    ∃ c others, chars = c :: others ∧ c.toNat = b.toNat ∧ rest = ofChars others := by
  obtain ⟨d, code, form⟩ := form_of_ascii h
  cases chars with
  | nil => cases same
  | cons c others =>
    rw [ofChars_cons, show b :: rest = [b] ++ rest from rfl, ← form] at same
    obtain ⟨rfl, rest⟩ := eq_of_form_append same
    exact ⟨_, others, rfl, code, rest⟩

theorem ofChars_of_ascii_append {front rest : Bytes} {chars : List Char}
    (h : ∀ b ∈ front, b < 0x80) (same : front ++ rest = ofChars chars) :
    ∃ others, rest = ofChars others := by
  induction front generalizing chars with
  | nil => exact ⟨chars, same⟩
  | cons b front ih =>
    obtain ⟨first, others⟩ := List.forall_mem_cons.1 h
    obtain ⟨_, chars, -, -, same⟩ := ofChars_of_ascii first same
    exact ih others same

theorem IsUtf8.append {front back : Bytes} (h : IsUtf8 front) (h' : IsUtf8 back) :
    IsUtf8 (front ++ back) := by
  rw [isUtf8_iff] at h h' ⊢
  obtain ⟨chars, rfl⟩ := h
  obtain ⟨chars', rfl⟩ := h'
  exact ⟨chars ++ chars', List.flatMap_append.symm⟩

theorem isUtf8_form (c : Char) : IsUtf8 (String.utf8EncodeChar c) :=
  isUtf8_iff.2 ⟨[c], (List.append_nil _).symm⟩

theorem isUtf8_of_ascii {bytes : Bytes} (h : ∀ b ∈ bytes, b < 0x80) : IsUtf8 bytes := by
  induction bytes with
  | nil => exact isUtf8_ofChars []
  | cons b bytes ih =>
    obtain ⟨first, others⟩ := List.forall_mem_cons.1 h
    obtain ⟨c, -, form⟩ := form_of_ascii first
    have whole := (isUtf8_form c).append (ih others)
    rwa [form] at whole

/-- What stands before a byte of ASCII and what stands after it are UTF-8 together with it. -/
theorem ofChars_split {front back : Bytes} {b : UInt8} {chars : List Char} (h : b < 0x80)
    (same : ofChars chars = front ++ b :: back) : IsUtf8 front ∧ IsUtf8 back := by
  induction chars generalizing front with
  | nil => simp at same
  | cons c chars ih =>
    obtain ⟨first, tail, form, -, inner⟩ := form_eq_cons c
    cases front with
    | nil =>
      obtain ⟨_, others, -, -, rest⟩ := ofChars_of_ascii h same.symm
      exact ⟨isUtf8_ofChars [], isUtf8_iff.2 ⟨others, rest⟩⟩
    | cons first' front =>
      rw [ofChars_cons, form] at same
      obtain ⟨rfl, later⟩ := List.cons.inj same
      -- The byte of ASCII is not inside the form, where no byte is a first one.
      rcases List.append_eq_append_iff.1 later with ⟨more, rfl, rest⟩ | ⟨more, rfl, rest⟩
      · obtain ⟨⟨text, front⟩, back⟩ := ih rest
        refine ⟨isUtf8_iff.2 ⟨c :: text.toList, ?_⟩, back⟩
        rw [ofChars_cons, form, ← ofText_eq_ofChars, ← front, List.cons_append]
      · cases more with
        | nil =>
          obtain ⟨_, others, -, -, back⟩ := ofChars_of_ascii h (rest.trans (List.nil_append _))
          rw [List.append_nil] at form
          exact ⟨form ▸ isUtf8_form c, isUtf8_iff.2 ⟨others, back⟩⟩
        | cons b' more =>
          cases rest
          exact absurd (isFirst_of_ascii h) (inner _ (List.mem_append_right _ List.mem_cons_self))

end PathFold.Bytes
