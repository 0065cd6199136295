import PathFold.Bytes
import PathFold.Except
import PathFold.Json.Fault

/-! Escape sequences in strings. One escape denotes one character: `read` gives it with the number of
bytes it takes. The contents of a string decode to a text, or are compared with expected bytes as
they are decoded, without building the text. -/

namespace PathFold.Json.Escape

/-- The character that a backslash and this byte stand for. -/
def simple? (b : UInt8) : Option Char :=
  if b = 0x22 then some '"'
  else if b = 0x5C then some '\\'
  else if b = 0x2F then some '/'
  else if b = 0x62 then some '\x08'
  else if b = 0x66 then some '\x0c'
  else if b = 0x6E then some '\n'
  else if b = 0x72 then some '\r'
  else if b = 0x74 then some '\t'
  else none

/-- The value of a hexadecimal digit of either case. -/
def hexDigit? (b : UInt8) : Option Nat :=
  if 0x30 ≤ b ∧ b ≤ 0x39 then some (b.toNat - 0x30)
  else if 0x61 ≤ b ∧ b ≤ 0x66 then some (b.toNat - 0x61 + 10)
  else if 0x41 ≤ b ∧ b ≤ 0x46 then some (b.toNat - 0x41 + 10)
  else none

/-- The number that the first four bytes write in base sixteen. That there are four is asked before
whether they are digits. -/
def hex4 : Bytes → Except EscapeFault Nat
  | a :: b :: c :: d :: _ =>
    match hexDigit? a, hexDigit? b, hexDigit? c, hexDigit? d with
    | some a, some b, some c, some d => .ok (((a * 16 + b) * 16 + c) * 16 + d)
    | _, _, _, _ => .error .badHexDigit
  | _ => .error .truncatedUnicode

def isHighSurrogate (n : Nat) : Bool := 0xD800 ≤ n && n < 0xDC00

def isLowSurrogate (n : Nat) : Bool := 0xDC00 ≤ n && n < 0xE000

/-- The code point that a pair of surrogates stands for: ten bits from each, above the first plane. -/
def joinSurrogates (high low : Nat) : Nat := 0x10000 + high % 0x400 * 0x400 + low % 0x400

def charOf (n : Nat) : Except EscapeFault Char :=
  if h : n.isValidChar then .ok (Char.ofNatAux n h) else .error .notACharacter

/-- Reads what follows a backslash and a `u`: four digits, or two times four when the first are a
high surrogate. The count includes the backslash and the `u`. -/
def readUnicode (digits : Bytes) : Except EscapeFault (Char × Nat) :=
  match hex4 digits with
  | .error fault => .error fault
  | .ok high =>
    if isLowSurrogate high then .error .unpairedLow
    else if isHighSurrogate high then
      if digits[4]? = some 0x5C ∧ digits[5]? = some 0x75 then
        match hex4 (digits.drop 6) with
        | .error fault => .error fault
        | .ok low =>
          if isLowSurrogate low then (charOf (joinSurrogates high low)).map (·, 12)
          else .error .unpairedHigh
      else .error .unpairedHigh
    else (charOf high).map (·, 6)

/-- Reads the escape at the front, whose first byte is the backslash: the character and the number of
bytes. -/
def read (bytes : Bytes) : Except EscapeFault (Char × Nat) :=
  match bytes with
  | _ :: b :: rest =>
    if b = 0x75 then readUnicode rest
    else match simple? b with
      | some c => .ok (c, 2)
      | none => .error .unknown
  | _ => .error .unterminated

theorem four_le_of_hex4 {bytes : Bytes} {n : Nat} (h : hex4 bytes = .ok n) : 4 ≤ bytes.length := by
  unfold hex4 at h
  split at h
  · simp
  · simp at h

theorem hexDigit?_lt {b : UInt8} {n : Nat} (h : hexDigit? b = some n) : n < 16 := by
  unfold hexDigit? at h
  split at h
  · rename_i hb
    have := UInt8.le_iff_toNat_le.1 hb.2
    simp at h this
    omega
  · split at h
    · rename_i hb
      have := UInt8.le_iff_toNat_le.1 hb.2
      simp at h this
      omega
    · split at h
      · rename_i hb
        have := UInt8.le_iff_toNat_le.1 hb.2
        simp at h this
        omega
      · simp at h

theorem hex4_lt {bytes : Bytes} {n : Nat} (h : hex4 bytes = .ok n) : n < 0x10000 := by
  unfold hex4 at h
  split at h
  · split at h
    · rename_i ha hb hc hd
      have := hexDigit?_lt ha
      have := hexDigit?_lt hb
      have := hexDigit?_lt hc
      have := hexDigit?_lt hd
      simp at h
      omega
    · simp at h
  · simp at h

theorem count_of_map {e : Except EscapeFault Char} {k n : Nat} {c : Char}
    (h : e.map (·, k) = .ok (c, n)) : k = n := by
  obtain ⟨d, -, same⟩ := Except.map_eq_ok_iff.1 h
  exact (Prod.mk.inj same).2

theorem readUnicode_count {digits : Bytes} {c : Char} {n : Nat}
    (h : readUnicode digits = .ok (c, n)) : 6 ≤ n ∧ n ≤ digits.length + 2 := by
  unfold readUnicode at h
  split at h
  · cases h
  · rename_i high hh
    have := four_le_of_hex4 hh
    split at h
    · cases h
    · split at h
      · split at h
        · split at h
          · cases h
          · rename_i low hl
            have hlen := four_le_of_hex4 hl
            rw [List.length_drop] at hlen
            split at h
            · have := count_of_map h
              omega
            · cases h
        · cases h
      · have := count_of_map h
        omega

/-- An escape takes at least two bytes and no more than there are. -/
theorem read_count {bytes : Bytes} {c : Char} {n : Nat} (h : read bytes = .ok (c, n)) :
    2 ≤ n ∧ n ≤ bytes.length := by
  unfold read at h
  split at h
  · split at h
    · have := readUnicode_count h
      simp
      omega
    · split at h <;> simp at h
      simp
      omega
  · simp at h

/-- The contents of a string with each escape replaced by the UTF-8 form of its character. -/
def unescape (raw : Bytes) : Except EscapeFault Bytes :=
  match raw with
  | [] => .ok []
  | b :: rest =>
    if b = 0x5C then
      match _read : read (b :: rest) with
      | .error fault => .error fault
      | .ok (c, n) => (unescape ((b :: rest).drop n)).map (String.utf8EncodeChar c ++ ·)
    else (unescape rest).map (b :: ·)
termination_by raw.length
decreasing_by
  · have := read_count _read
    simp only [List.length_drop]
    omega
  · simp

def hasEscape (raw : Bytes) : Bool := raw.contains 0x5C

/-- The text that the contents of a string denote. Contents without an escape denote themselves. -/
def decode (raw : Bytes) : Except DecodeFault String :=
  match (if hasEscape raw then unescape raw else .ok raw) with
  | .error fault => .error (.escape fault)
  | .ok bytes =>
    match Bytes.toText? bytes with
    | some text => .ok text
    | none => .error .invalidUtf8

/-- Whether the contents of a string, decoded as they are read, come out as the expected bytes. -/
def spells (raw expected : Bytes) : Bool :=
  match raw with
  | [] => expected.isEmpty
  | b :: rest =>
    if b = 0x5C then
      match _read : read (b :: rest) with
      | .error _ => false
      | .ok (c, n) =>
        let form := String.utf8EncodeChar c
        form.isPrefixOf expected && spells ((b :: rest).drop n) (expected.drop form.length)
    else
      match expected with
      | [] => false
      | e :: es => b == e && spells rest es
termination_by raw.length
decreasing_by
  · have := read_count _read
    simp only [List.length_drop]
    omega
  · simp

/-- Whether the contents of a string denote the expected bytes. -/
def decodesTo (raw expected : Bytes) : Bool :=
  if hasEscape raw then spells raw expected else raw == expected

example : decode (Bytes.ofText "\\u00e9\\n") = .ok "é\n" := by cbv
example : decode (Bytes.ofText "\\ud83d\\uDE00") = .ok "😀" := by cbv
example : decode (Bytes.ofText "\\ud800x") = .error (.escape .unpairedHigh) := by cbv

end PathFold.Json.Escape
