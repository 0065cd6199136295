import PathFold.Json.Escape
import PathFold.Json.Numeral
import PathFold.Proofs.Safety.Steps

/-! Lexemes read with every step checked: escapes, whose digits and surrogates are also checked to be
above what is taken from them, and the parts of a number. -/

namespace PathFold.Json.Checked

section Escapes

open Escape

/-- The value of a hexadecimal digit, which is above the first digit of its run. -/
def hexDigit (b : UInt8) : Option (Option Nat) :=
  if 0x30 ≤ b ∧ b ≤ 0x39 then (sub b.toNat 0x30).map some
  else if 0x61 ≤ b ∧ b ≤ 0x66 then (sub b.toNat 0x61).map fun n => some (n + 10)
  else if 0x41 ≤ b ∧ b ≤ 0x46 then (sub b.toNat 0x41).map fun n => some (n + 10)
  else some none

theorem hexDigit_eq (b : UInt8) : hexDigit b = some (hexDigit? b) := by
  have above {first : UInt8} (h : first ≤ b) :
      sub b.toNat first.toNat = some (b.toNat - first.toNat) :=
    sub_eq (UInt8.le_iff_toNat_le.1 h)
  unfold hexDigit hexDigit?
  split
  · rename_i digit
    exact congrArg (Option.map some) (above digit.1)
  · split
    · rename_i digit
      exact congrArg (Option.map _) (above digit.1)
    · split
      · rename_i digit
        exact congrArg (Option.map _) (above digit.1)
      · rfl

def hex4 : Bytes → Option (Except EscapeFault Nat)
  | a :: b :: c :: d :: _ => do
    let a ← hexDigit a
    let b ← hexDigit b
    let c ← hexDigit c
    let d ← hexDigit d
    some (match a, b, c, d with
      | some a, some b, some c, some d => .ok (((a * 16 + b) * 16 + c) * 16 + d)
      | _, _, _, _ => .error .badHexDigit)
  | _ => some (.error .truncatedUnicode)

theorem hex4_eq (bytes : Bytes) : hex4 bytes = some (Escape.hex4 bytes) := by
  match bytes with
  | a :: b :: c :: d :: rest =>
    rw [hex4, hexDigit_eq, hexDigit_eq, hexDigit_eq, hexDigit_eq]
    rfl
  | [] | [_] | [_, _] | [_, _, _] => rfl

/-- The code point of a pair of surrogates, each above the first of its kind. -/
def joinSurrogates (high low : Nat) : Option Nat := do
  let high ← sub high 0xD800
  let low ← sub low 0xDC00
  some (0x10000 + high * 0x400 + low)

theorem joinSurrogates_eq {high low : Nat} (hhigh : isHighSurrogate high)
    (hlow : isLowSurrogate low) :
    joinSurrogates high low = some (Escape.joinSurrogates high low) := by
  simp only [isHighSurrogate, isLowSurrogate, Bool.and_eq_true, decide_eq_true_eq] at hhigh hlow
  have same : 0x10000 + (high - 0xD800) * 0x400 + (low - 0xDC00) =
      Escape.joinSurrogates high low := by
    unfold Escape.joinSurrogates
    omega
  rw [joinSurrogates, sub_eq hhigh.1, sub_eq hlow.1, ← same]
  rfl

def readUnicode (digits : Bytes) : Option (Except EscapeFault (Char × Nat)) := do
  match ← hex4 digits with
  | .error fault => some (.error fault)
  | .ok high =>
    if isLowSurrogate high then some (.error .unpairedLow)
    else if isHighSurrogate high then
      if digits[4]? = some 0x5C ∧ digits[5]? = some 0x75 then
        match ← hex4 (digits.drop 6) with
        | .error fault => some (.error fault)
        | .ok low =>
          if isLowSurrogate low then
            let code ← joinSurrogates high low
            some ((charOf code).map (·, 12))
          else some (.error .unpairedHigh)
      else some (.error .unpairedHigh)
    else some ((charOf high).map (·, 6))

theorem readUnicode_eq (digits : Bytes) :
    readUnicode digits = some (Escape.readUnicode digits) := by
  unfold readUnicode Escape.readUnicode
  rw [hex4_eq, Option.bind_eq_bind, Option.bind_some]
  cases Escape.hex4 digits with
  | error fault => rfl
  | ok high =>
    dsimp only
    by_cases unpaired : isLowSurrogate high
    · rw [if_pos unpaired, if_pos unpaired]
    · rw [if_neg unpaired, if_neg unpaired]
      by_cases surrogate : isHighSurrogate high
      · rw [if_pos surrogate, if_pos surrogate]
        split
        · rw [hex4_eq]
          cases Escape.hex4 (digits.drop 6) with
          | error fault => rfl
          | ok low =>
            dsimp only [Option.bind_some]
            split
            · rename_i pair
              rw [joinSurrogates_eq surrogate pair]
              rfl
            · rfl
        · rfl
      · rw [if_neg surrogate, if_neg surrogate]

/-- The escape at the front, whose first byte has to be the backslash. -/
def readEscape (bytes : Bytes) : Option (Except EscapeFault (Char × Nat)) :=
  match bytes with
  | 0x5C :: b :: rest =>
    if b = 0x75 then readUnicode rest
    else match simple? b with
      | some c => some (.ok (c, 2))
      | none => some (.error .unknown)
  | [0x5C] => some (.error .unterminated)
  | _ => none

theorem readEscape_eq (rest : Bytes) :
    readEscape (0x5C :: rest) = some (Escape.read (0x5C :: rest)) := by
  cases rest with
  | nil => rfl
  | cons b rest =>
    rw [readEscape, Escape.read]
    split
    · exact readUnicode_eq rest
    · cases simple? b <;> rfl

end Escapes

/-- A part of a lexeme read at the cursor: the fault that stops it, if any, and the cursor then. -/
abbrev Part := Cursor → Option (Option Fault × Cursor)

/-- One part after another, unless the first stops. -/
def Part.andThen (first second : Part) : Part := fun c => do
  match ← first c with
  | (some fault, c) => some (some fault, c)
  | (none, c) => second c

/-- What a reader comes to at a cursor. -/
def outcome (c : Cursor) : Except Stop Nat → Option Fault × Cursor
  | .ok n => (none, c.advance n)
  | .error stop => (some stop.fault, c.advance stop.offset)

/-- That a part comes to what a reader comes to, wherever the cursor stands in the input. -/
def Part.Follows (part : Part) (reader : Reader) : Prop :=
  ∀ c : Cursor, c.InRange → part c = some (outcome c (reader c.rest))

theorem Part.andThen_eq {first second : Part} {reader reader' : Reader} {c : Cursor}
    (inRange : c.InRange) (early : first c = some (outcome c (reader c.rest)))
    (within : reach (reader c.rest) ≤ c.rest.length) (later : second.Follows reader') :
    first.andThen second c = some (outcome c (reader.andThen reader' c.rest)) := by
  rw [Part.andThen, early]
  unfold Reader.andThen
  cases read : reader c.rest with
  | error stop => rfl
  | ok n =>
    rw [read] at within
    have next := later (c.advance n) (inRange.advance within)
    rw [Cursor.advance_rest] at next
    simp only [outcome, Option.bind_eq_bind, Option.bind_some, next]
    cases reader' (c.rest.drop n) <;> simp

theorem Part.Follows.andThen {first second : Part} {reader reader' : Reader}
    (h : first.Follows reader) (within : reader.Within) (h' : second.Follows reader') :
    (first.andThen second).Follows (reader.andThen reader') :=
  fun c inRange => Part.andThen_eq inRange (h c inRange) (within c.rest) h'

namespace Numeral

/-- One byte. -/
def one : Part := fun c => do
  let c ← advance c 1
  some (none, c)

theorem one_eq {c : Cursor} (h : c.InRange) (more : 0 < c.rest.length) :
    one c = some (outcome c (.ok 1)) := by
  rw [one, advance_eq h more]
  rfl

theorem length_pos_of_peek {p : Option UInt8 → Prop} {c : Cursor} (noEnd : ¬ p none)
    (here : p c.peek) : 0 < c.rest.length := by
  cases rest : c.rest with
  | nil =>
    rw [Cursor.peek, rest] at here
    exact (noEnd here).elim
  | cons => exact Nat.succ_pos _

section

variable (p : Option UInt8 → Prop) [DecidablePred p]

/-- One byte of a class, if it is there. -/
def optional : Part := fun c => if p c.peek then one c else some (none, c)

/-- One byte of a class with a part after it, if the byte is there. -/
def led (part : Part) : Part := fun c => if p c.peek then one.andThen part c else some (none, c)

variable {p}

theorem optional_follows (noEnd : ¬ p none) :
    (optional p).Follows fun bytes => .ok (if p bytes.head? then 1 else 0) := by
  intro c h
  change (if p c.peek then one c else some (none, c)) =
    some (outcome c (.ok (if p c.peek then 1 else 0)))
  by_cases here : p c.peek
  · rw [if_pos here, if_pos here, one_eq h (length_pos_of_peek noEnd here)]
  · rw [if_neg here, if_neg here, outcome, Cursor.advance_zero]

theorem led_follows {part : Part} {reader : Reader} (noEnd : ¬ p none) (h : part.Follows reader) :
    (led p part).Follows fun bytes =>
      if p bytes.head? then Reader.andThen (fun _ => .ok 1) reader bytes else .ok 0 := by
  intro c inRange
  change (if p c.peek then one.andThen part c else some (none, c)) =
    some (outcome c (if p c.peek then Reader.andThen (fun _ => .ok 1) reader c.rest else .ok 0))
  by_cases here : p c.peek
  · have more := length_pos_of_peek noEnd here
    rw [if_pos here, if_pos here]
    exact Part.andThen_eq inRange (one_eq inRange more) more h
  · rw [if_neg here, if_neg here, outcome, Cursor.advance_zero]

end

def minus : Part := optional (· = some 0x2D)

def whole : Part := fun c =>
  match c.peek with
  | none => some (some .invalidNumber, c)
  | some b =>
    if b = 0x30 then one c
    else if isDigit b then do
      let (_, c) ← skipDigits c
      some (none, c)
    else some (some .invalidNumber, c)

def someDigits (fault : Fault) : Part := fun c => do
  let (n, c) ← skipDigits c
  some (if n = 0 then some fault else none, c)

def fraction : Part := led (· = some 0x2E) (someDigits .expectedFractionDigit)

def exponentSign : Part := optional fun b => b = some 0x2B ∨ b = some 0x2D

def exponent : Part :=
  led (fun b => b = some 0x65 ∨ b = some 0x45)
    (exponentSign.andThen (someDigits .expectedExponentDigit))

def read : Part := minus.andThen (whole.andThen (fraction.andThen exponent))

theorem whole_follows : whole.Follows Json.Numeral.whole := by
  intro c h
  unfold whole Json.Numeral.whole
  cases ahead : c.rest with
  | nil => simp [Cursor.peek, ahead, outcome]
  | cons b tail =>
    have more := Cursor.length_rest_pos ahead
    have digits : skipDigits c =
        some (Extent.digits (b :: tail), c.advance (Extent.digits (b :: tail))) := by
      rw [skipDigits_eq h, Cursor.skipDigits, ahead]
    rw [Cursor.peek, ahead]
    dsimp only [List.head?_cons]
    split
    · exact one_eq h more
    · split
      · rw [digits]
        rfl
      · rw [outcome, Cursor.advance_zero]

theorem someDigits_follows (fault : Fault) :
    (someDigits fault).Follows (Json.Numeral.someDigits fault) := by
  intro c h
  rw [someDigits, Json.Numeral.someDigits, skipDigits_eq h, Cursor.skipDigits]
  by_cases none : Extent.digits c.rest = 0
  · simp [none, outcome]
  · simp [none, outcome]

theorem read_follows : read.Follows Json.Numeral.read := by
  have sign : exponentSign.Follows Json.Numeral.exponentSign := optional_follows (by simp)
  have hminus : minus.Follows Json.Numeral.minus := optional_follows (by simp)
  have hfraction : fraction.Follows Json.Numeral.fraction :=
    led_follows (by simp) (someDigits_follows _)
  have hexponent : exponent.Follows Json.Numeral.exponent :=
    led_follows (by simp) (sign.andThen Json.Numeral.within_exponentSign (someDigits_follows _))
  have tail := hfraction.andThen Json.Numeral.within_fraction hexponent
  exact hminus.andThen Json.Numeral.within_minus
    (whole_follows.andThen Json.Numeral.within_whole tail)

end Numeral

end PathFold.Json.Checked
