import PathFold.Json.Escape
import PathFold.Proofs.Grammar.Lexeme

/-! Escapes are read exactly. At a backslash there begins an escape of the grammar, or something is
wrong that the bytes from the backslash on tell; the reader gives the character of the one and
reports the other. -/

namespace PathFold.Json

/-- What keeps bytes from beginning with four hexadecimal digits. That there are four bytes is asked
first. -/
inductive IsBadHex4 (bytes : Bytes) : EscapeFault → Prop
  | short : bytes.length < 4 → IsBadHex4 bytes .truncatedUnicode
  | foreign {b} : 4 ≤ bytes.length → b ∈ bytes.take 4 → (∀ value, ¬ IsHexDigit b value) →
      IsBadHex4 bytes .badHexDigit

/-- What keeps bytes that start with a backslash from beginning with an escape. After the digits of
a high surrogate the digits of a low one are asked for, if a second escape is announced there. -/
inductive IsBadEscape : Bytes → EscapeFault → Prop
  | unterminated : IsBadEscape [0x5C] .unterminated
  | unknown {b rest} : b ≠ 0x75 → (∀ code, (b, code) ∉ simpleEscapes) →
      IsBadEscape (0x5C :: b :: rest) .unknown
  | digits {rest fault} : IsBadHex4 rest fault → IsBadEscape (0x5C :: 0x75 :: rest) fault
  | low {digits low rest} : IsHex4 digits low → 0xDC00 ≤ low → low < 0xE000 →
      IsBadEscape (0x5C :: 0x75 :: (digits ++ rest)) .unpairedLow
  | alone {digits high rest} : IsHex4 digits high → 0xD800 ≤ high → high < 0xDC00 →
      ¬ [0x5C, 0x75] <+: rest → IsBadEscape (0x5C :: 0x75 :: (digits ++ rest)) .unpairedHigh
  | secondDigits {digits high rest fault} : IsHex4 digits high → 0xD800 ≤ high → high < 0xDC00 →
      IsBadHex4 rest fault →
      IsBadEscape (0x5C :: 0x75 :: (digits ++ 0x5C :: 0x75 :: rest)) fault
  | unmatched {digits high digits' other rest} : IsHex4 digits high → 0xD800 ≤ high →
      high < 0xDC00 → IsHex4 digits' other → (other < 0xDC00 ∨ 0xE000 ≤ other) →
      IsBadEscape (0x5C :: 0x75 :: (digits ++ 0x5C :: 0x75 :: (digits' ++ rest))) .unpairedHigh

namespace Escape

theorem hexDigit?_eq_some_iff {b : UInt8} {value : Nat} :
    hexDigit? b = some value ↔ IsHexDigit b value := by
  unfold hexDigit? IsHexDigit
  simp only [UInt8.le_iff_toNat_le]
  have h30 : (0x30 : UInt8).toNat = 0x30 := rfl
  have h39 : (0x39 : UInt8).toNat = 0x39 := rfl
  have h41 : (0x41 : UInt8).toNat = 0x41 := rfl
  have h46 : (0x46 : UInt8).toNat = 0x46 := rfl
  have h61 : (0x61 : UInt8).toNat = 0x61 := rfl
  have h66 : (0x66 : UInt8).toNat = 0x66 := rfl
  rw [h30, h39, h41, h46, h61, h66]
  split
  · rw [Option.some.injEq]
    omega
  · split
    · rw [Option.some.injEq]
      omega
    · split
      · rw [Option.some.injEq]
        omega
      · simp only [reduceCtorEq, false_iff]
        omega

theorem hexDigit?_eq_none_iff {b : UInt8} :
    hexDigit? b = none ↔ ∀ value, ¬ IsHexDigit b value := by
  simp only [Option.eq_none_iff_forall_ne_some, ne_eq, hexDigit?_eq_some_iff]

theorem hex4_append {digits : Bytes} {value : Nat} (h : IsHex4 digits value) (rest : Bytes) :
    hex4 (digits ++ rest) = .ok value := by
  obtain ⟨ha, hb, hc, hd⟩ := h
  simp [hex4, hexDigit?_eq_some_iff.2 ha, hexDigit?_eq_some_iff.2 hb, hexDigit?_eq_some_iff.2 hc,
    hexDigit?_eq_some_iff.2 hd]

theorem isHex4_of_hex4 {bytes : Bytes} {value : Nat} (h : hex4 bytes = .ok value) :
    ∃ digits rest, bytes = digits ++ rest ∧ IsHex4 digits value := by
  unfold hex4 at h
  split at h
  · split at h
    · rename_i ha hb hc hd
      cases h
      refine ⟨[_, _, _, _], _, rfl, ?_⟩
      exact .intro (hexDigit?_eq_some_iff.1 ha) (hexDigit?_eq_some_iff.1 hb)
        (hexDigit?_eq_some_iff.1 hc) (hexDigit?_eq_some_iff.1 hd)
    · cases h
  · cases h

theorem length_of_isHex4 {digits : Bytes} {value : Nat} (h : IsHex4 digits value) :
    digits.length = 4 := by
  cases h
  rfl

theorem lt_of_isHex4 {digits : Bytes} {value : Nat} (h : IsHex4 digits value) : value < 0x10000 :=
  hex4_lt (by simpa using hex4_append h [])

theorem isBadHex4_of_hex4 {bytes : Bytes} {fault : EscapeFault} (h : hex4 bytes = .error fault) :
    IsBadHex4 bytes fault := by
  unfold hex4 at h
  split at h
  · rename_i a b c d rest
    split at h
    · cases h
    · rename_i notAll
      cases h
      have foreign {x : UInt8} (mem : x ∈ [a, b, c, d]) (none : hexDigit? x = none) :
          IsBadHex4 (a :: b :: c :: d :: rest) .badHexDigit :=
        .foreign (by simp) mem (hexDigit?_eq_none_iff.1 none)
      cases ha : hexDigit? a with
      | none => exact foreign (by simp) ha
      | some =>
        cases hb : hexDigit? b with
        | none => exact foreign (by simp) hb
        | some =>
          cases hc : hexDigit? c with
          | none => exact foreign (by simp) hc
          | some =>
            cases hd : hexDigit? d with
            | none => exact foreign (by simp) hd
            | some => exact (notAll _ _ _ _ ha hb hc hd).elim
  · rename_i few
    cases h
    match bytes with
    | [] | [_] | [_, _] | [_, _, _] => exact .short (by simp)
    | a :: b :: c :: d :: rest => exact (few a b c d rest rfl).elim

theorem isHexDigit_of_mem {digits : Bytes} {value : Nat} (h : IsHex4 digits value) :
    ∀ b ∈ digits, ∃ value, IsHexDigit b value := by
  obtain ⟨ha, hb, hc, hd⟩ := h
  simp only [List.mem_cons, List.not_mem_nil, or_false]
  rintro b (rfl | rfl | rfl | rfl)
  · exact ⟨_, ha⟩
  · exact ⟨_, hb⟩
  · exact ⟨_, hc⟩
  · exact ⟨_, hd⟩

/-- What is wrong is one thing, and then there are no four digits. -/
theorem hex4_of_isBadHex4 {bytes : Bytes} {fault : EscapeFault} (h : IsBadHex4 bytes fault) :
    hex4 bytes = .error fault := by
  cases read : hex4 bytes with
  | ok value =>
    obtain ⟨digits, rest, rfl, hex⟩ := isHex4_of_hex4 read
    have four := length_of_isHex4 hex
    cases h with
    | short few => simp only [List.length_append] at few; omega
    | @foreign b _ mem foreign =>
      rw [← four, List.take_left] at mem
      obtain ⟨value, digit⟩ := isHexDigit_of_mem hex b mem
      exact absurd digit (foreign value)
  | error other =>
    cases isBadHex4_of_hex4 read <;> cases h
    · rfl
    · omega
    · omega
    · rfl

theorem isHex4_or_isBadHex4 (bytes : Bytes) :
    (∃ digits rest value, bytes = digits ++ rest ∧ IsHex4 digits value) ∨
      ∃ fault, IsBadHex4 bytes fault := by
  cases read : hex4 bytes with
  | ok value =>
    obtain ⟨digits, rest, split, hex⟩ := isHex4_of_hex4 read
    exact .inl ⟨digits, rest, value, split, hex⟩
  | error fault => exact .inr ⟨fault, isBadHex4_of_hex4 read⟩

theorem charOf_of_isValidChar {code : Nat} (h : code.isValidChar) :
    ∃ c : Char, c.toNat = code ∧ charOf code = .ok c :=
  ⟨Char.ofNatAux code h, rfl, dif_pos h⟩

theorem joinSurrogates_eq {high low : Nat} (h1 : 0xD800 ≤ high) (h2 : high < 0xDC00)
    (l1 : 0xDC00 ≤ low) (l2 : low < 0xE000) :
    joinSurrogates high low = 0x10000 + (high - 0xD800) * 0x400 + (low - 0xDC00) := by
  unfold joinSurrogates
  omega

theorem isHighSurrogate_iff {n : Nat} : isHighSurrogate n = true ↔ 0xD800 ≤ n ∧ n < 0xDC00 := by
  simp [isHighSurrogate]

theorem isLowSurrogate_iff {n : Nat} : isLowSurrogate n = true ↔ 0xDC00 ≤ n ∧ n < 0xE000 := by
  simp [isLowSurrogate]

theorem unicode_of_ahead {digits rest : Bytes} (four : digits.length = 4)
    (ahead : (digits ++ rest)[4]? = some 0x5C ∧ (digits ++ rest)[5]? = some 0x75) :
    ∃ rest', rest = 0x5C :: 0x75 :: rest' := by
  obtain ⟨first, second⟩ := ahead
  rw [List.getElem?_append_right (by omega), four] at first second
  cases rest with
  | nil => cases first
  | cons a rest =>
    cases rest with
    | nil => cases second
    | cons b rest =>
      cases first
      cases second
      exact ⟨rest, rfl⟩

section Equations

variable {digits rest : Bytes} {code : Nat}

theorem readUnicode_of_unit (hex : IsHex4 digits code) (single : code < 0xD800 ∨ 0xE000 ≤ code) :
    readUnicode (digits ++ rest) = (charOf code).map (·, 6) := by
  have notLow : ¬ isLowSurrogate code = true := by
    rw [isLowSurrogate_iff]
    omega
  have notHigh : ¬ isHighSurrogate code = true := by
    rw [isHighSurrogate_iff]
    omega
  rw [readUnicode, hex4_append hex]
  dsimp only
  rw [if_neg notLow, if_neg notHigh]

theorem readUnicode_of_low (hex : IsHex4 digits code) (l1 : 0xDC00 ≤ code) (l2 : code < 0xE000) :
    readUnicode (digits ++ rest) = .error .unpairedLow := by
  rw [readUnicode, hex4_append hex]
  exact if_pos (isLowSurrogate_iff.2 ⟨l1, l2⟩)

theorem readUnicode_of_alone (hex : IsHex4 digits code) (h1 : 0xD800 ≤ code) (h2 : code < 0xDC00)
    (notAhead : ¬ [0x5C, 0x75] <+: rest) :
    readUnicode (digits ++ rest) = .error .unpairedHigh := by
  have notLow : ¬ isLowSurrogate code = true := by
    rw [isLowSurrogate_iff]
    omega
  have notAhead : ¬ ((digits ++ rest)[4]? = some 0x5C ∧ (digits ++ rest)[5]? = some 0x75) := by
    intro ahead
    obtain ⟨rest, rfl⟩ := unicode_of_ahead (length_of_isHex4 hex) ahead
    exact notAhead ⟨rest, rfl⟩
  rw [readUnicode, hex4_append hex]
  dsimp only
  rw [if_neg notLow, if_pos (isHighSurrogate_iff.2 ⟨h1, h2⟩), if_neg notAhead]

theorem readUnicode_of_pair (hex : IsHex4 digits code) (h1 : 0xD800 ≤ code) (h2 : code < 0xDC00) :
    readUnicode (digits ++ 0x5C :: 0x75 :: rest) =
      match hex4 rest with
      | .error fault => .error fault
      | .ok low =>
        if isLowSurrogate low then (charOf (joinSurrogates code low)).map (·, 12)
        else .error .unpairedHigh := by
  have notLow : ¬ isLowSurrogate code = true := by
    rw [isLowSurrogate_iff]
    omega
  have front := hex4_append hex (0x5C :: 0x75 :: rest)
  rw [readUnicode, front]
  dsimp only
  rw [if_neg notLow, if_pos (isHighSurrogate_iff.2 ⟨h1, h2⟩)]
  cases hex
  rfl

end Equations

theorem mem_simpleEscapes {b : UInt8} {c : Char} (h : simple? b = some c) :
    (b, c.toNat) ∈ simpleEscapes := by
  unfold simple? at h
  repeat' split at h
  all_goals
    cases h
    try subst_vars
    try decide

theorem simple?_of_mem {b : UInt8} {code : Nat} (h : (b, code) ∈ simpleEscapes) :
    ∃ c, simple? b = some c ∧ c.toNat = code := by
  simp only [simpleEscapes, List.mem_cons, List.not_mem_nil, or_false, Prod.mk.injEq] at h
  rcases h with ⟨rfl, rfl⟩ | ⟨rfl, rfl⟩ | ⟨rfl, rfl⟩ | ⟨rfl, rfl⟩ | ⟨rfl, rfl⟩ | ⟨rfl, rfl⟩ |
    ⟨rfl, rfl⟩ | ⟨rfl, rfl⟩ <;> exact ⟨_, rfl, rfl⟩

theorem simple?_eq_none_iff {b : UInt8} :
    simple? b = none ↔ ∀ code, (b, code) ∉ simpleEscapes := by
  constructor
  · intro none code mem
    obtain ⟨c, known, -⟩ := simple?_of_mem mem
    cases none.symm.trans known
  · intro other
    cases known : simple? b with
    | none => rfl
    | some c => exact absurd (mem_simpleEscapes known) (other _)

/-- An escape is read as the character it stands for, whatever follows it. -/
theorem read_append {bytes : Bytes} {code : Nat} (h : IsEscape bytes code) (rest : Bytes) :
    ∃ c : Char, c.toNat = code ∧ read (bytes ++ rest) = .ok (c, bytes.length) := by
  cases h with
  | @simple b _ listed =>
    obtain ⟨c, known, rfl⟩ := simple?_of_mem listed
    have notUnicode : b ≠ 0x75 := by
      rintro rfl
      have none : simple? 0x75 = none := rfl
      cases none.symm.trans known
    refine ⟨c, rfl, ?_⟩
    rw [List.cons_append, List.cons_append, read, if_neg notUnicode, known]
    rfl
  | @unit digits _ hex single =>
    have bound := lt_of_isHex4 hex
    have valid : code.isValidChar := by
      unfold Nat.isValidChar
      omega
    obtain ⟨c, hc, ok⟩ := charOf_of_isValidChar valid
    refine ⟨c, hc, ?_⟩
    rw [List.cons_append, List.cons_append, read, if_pos rfl, readUnicode_of_unit hex single, ok,
      List.length_cons, List.length_cons, length_of_isHex4 hex]
    rfl
  | @pair digits high digits' low hex h1 h2 hex' l1 l2 =>
    have valid : (0x10000 + (high - 0xD800) * 0x400 + (low - 0xDC00)).isValidChar := by
      unfold Nat.isValidChar
      omega
    obtain ⟨c, hc, ok⟩ := charOf_of_isValidChar valid
    refine ⟨c, hc, ?_⟩
    rw [← joinSurrogates_eq h1 h2 l1 l2] at ok
    rw [List.cons_append, List.cons_append, List.append_assoc, List.cons_append, List.cons_append,
      read, if_pos rfl, readUnicode_of_pair hex h1 h2, hex4_append hex']
    dsimp only
    rw [if_pos (isLowSurrogate_iff.2 ⟨l1, l2⟩), ok, List.length_cons, List.length_cons,
      List.length_append, List.length_cons, List.length_cons, length_of_isHex4 hex,
      length_of_isHex4 hex']
    rfl

/-- Where no escape begins, the fault is reported that the bytes have. -/
theorem read_of_isBadEscape {bytes : Bytes} {fault : EscapeFault} (h : IsBadEscape bytes fault) :
    read bytes = .error fault := by
  cases h with
  | unterminated => rfl
  | unknown notUnicode other => rw [read, if_neg notUnicode, simple?_eq_none_iff.2 other]
  | digits bad => rw [read, if_pos rfl, readUnicode, hex4_of_isBadHex4 bad]
  | low hex l1 l2 => rw [read, if_pos rfl, readUnicode_of_low hex l1 l2]
  | alone hex h1 h2 notAhead => rw [read, if_pos rfl, readUnicode_of_alone hex h1 h2 notAhead]
  | secondDigits hex h1 h2 bad =>
    rw [read, if_pos rfl, readUnicode_of_pair hex h1 h2, hex4_of_isBadHex4 bad]
  | @unmatched digits high digits' other rest hex h1 h2 hex' notLow =>
    have notLow : ¬ isLowSurrogate other = true := by
      rw [isLowSurrogate_iff]
      omega
    rw [read, if_pos rfl, readUnicode_of_pair hex h1 h2, hex4_append hex']
    exact if_neg notLow

theorem unicode_isEscape_or_isBadEscape (rest : Bytes) :
    (∃ escape others code, 0x5C :: 0x75 :: rest = escape ++ others ∧ IsEscape escape code) ∨
      ∃ fault, IsBadEscape (0x5C :: 0x75 :: rest) fault := by
  rcases isHex4_or_isBadHex4 rest with ⟨digits, rest, code, rfl, hex⟩ | ⟨fault, bad⟩
  · by_cases low : 0xDC00 ≤ code ∧ code < 0xE000
    · exact .inr ⟨_, .low hex low.1 low.2⟩
    by_cases high : 0xD800 ≤ code ∧ code < 0xDC00
    · by_cases announced : [0x5C, 0x75] <+: rest
      · obtain ⟨rest, rfl⟩ := announced
        simp only [List.cons_append, List.nil_append]
        rcases isHex4_or_isBadHex4 rest with ⟨digits', rest, other, rfl, hex'⟩ | ⟨fault, bad⟩
        · by_cases matched : 0xDC00 ≤ other ∧ other < 0xE000
          · refine .inl ⟨_, rest, _, ?_, .pair hex high.1 high.2 hex' matched.1 matched.2⟩
            simp only [List.cons_append, List.append_assoc]
          · exact .inr ⟨_, .unmatched hex high.1 high.2 hex' (by omega)⟩
        · exact .inr ⟨fault, .secondDigits hex high.1 high.2 bad⟩
      · exact .inr ⟨_, .alone hex high.1 high.2 announced⟩
    · exact .inl ⟨0x5C :: 0x75 :: digits, rest, code, rfl, .unit hex (by omega)⟩
  · exact .inr ⟨fault, .digits bad⟩

/-- At a backslash begins an escape, unless something is wrong there. -/
theorem isEscape_or_isBadEscape (rest : Bytes) :
    (∃ escape others code, 0x5C :: rest = escape ++ others ∧ IsEscape escape code) ∨
      ∃ fault, IsBadEscape (0x5C :: rest) fault := by
  cases rest with
  | nil => exact .inr ⟨_, .unterminated⟩
  | cons b rest =>
    by_cases unicode : b = 0x75
    · subst unicode
      exact unicode_isEscape_or_isBadEscape rest
    · cases known : simple? b with
      | some c => exact .inl ⟨[0x5C, b], rest, _, rfl, .simple (mem_simpleEscapes known)⟩
      | none => exact .inr ⟨_, .unknown unicode (simple?_eq_none_iff.1 known)⟩

theorem isEscape_of_read {bytes : Bytes} {c : Char} {n : Nat}
    (h : read (0x5C :: bytes) = .ok (c, n)) :
    ∃ escape rest, 0x5C :: bytes = escape ++ rest ∧ escape.length = n ∧
      IsEscape escape c.toNat := by
  rcases isEscape_or_isBadEscape bytes with ⟨escape, rest, code, whole, isEscape⟩ | ⟨fault, bad⟩
  · obtain ⟨_, rfl, ok⟩ := read_append isEscape rest
    rw [whole, ok] at h
    cases h
    exact ⟨escape, rest, whole, rfl, isEscape⟩
  · rw [read_of_isBadEscape bad] at h
    cases h

/-- What is refused at a backslash is no escape, with the fault that is reported. -/
theorem isBadEscape_of_read {rest : Bytes} {fault : EscapeFault}
    (h : read (0x5C :: rest) = .error fault) : IsBadEscape (0x5C :: rest) fault := by
  rcases isEscape_or_isBadEscape rest with ⟨escape, others, code, whole, isEscape⟩ | ⟨other, bad⟩
  · obtain ⟨_, _, ok⟩ := read_append isEscape others
    rw [whole, ok] at h
    cases h
  · rw [read_of_isBadEscape bad] at h
    cases h
    exact bad

theorem head_of_isEscape {bytes : Bytes} {code : Nat} (h : IsEscape bytes code) :
    ∃ tail, bytes = 0x5C :: tail := by
  cases h <;> exact ⟨_, rfl⟩

/-- No character is out of range, so that this fault is none of an escape. -/
theorem ne_notACharacter_of_isBadEscape {bytes : Bytes} {fault : EscapeFault}
    (h : IsBadEscape bytes fault) : fault ≠ .notACharacter := by
  have digits {bytes : Bytes} {fault : EscapeFault} (bad : IsBadHex4 bytes fault) :
      fault ≠ .notACharacter := by
    cases bad <;> simp
  cases h with
  | digits bad | secondDigits _ _ _ bad => exact digits bad
  | _ => simp

end Escape

end PathFold.Json
