import PathFold.Json.Tokenizer.Progress
import PathFold.Proofs.Grammar.Quotation
import PathFold.Proofs.Safety.Lexemes

/-! Tokens read with every step checked. A container is entered and left with its bit among the 64
and its depth above zero, and every token takes its bytes from within the input. -/

namespace PathFold.Json

/-- That a tokenizer stands in its input, with no more than 64 containers open. -/
structure Tokenizer.InRange (t : Tokenizer) : Prop where
  cursor : t.cursor.InRange
  depth : t.depth ≤ 64

namespace Checked

open Tokenizer (Answer)

section Nesting

/-- The bit of a level, which is one of 64. -/
def bit (level : Nat) : Option (BitVec 64) := if level < 64 then some (1#64 <<< level) else none

/-- One more container, if there is room. -/
def enter (nesting : Nesting) (kind : ContainerKind) : Option (Option Nesting) :=
  if Nesting.maxDepth ≤ nesting.depth then some none
  else do
    let mask ← bit nesting.depth
    let bits := match kind with
      | .object => nesting.bits ||| mask
      | .array => nesting.bits &&& ~~~mask
    some (some ⟨nesting.depth + 1, bits⟩)

def inObject (nesting : Nesting) : Option Bool :=
  if 0 < nesting.depth then do
    let level ← sub nesting.depth 1
    let mask ← bit level
    some (nesting.bits &&& mask != 0)
  else some false

def leave (nesting : Nesting) : Option Nesting := do
  let depth ← sub nesting.depth 1
  some ⟨depth, nesting.bits⟩

theorem bit_eq {level : Nat} (h : level < 64) : bit level = some (1#64 <<< level) := if_pos h

theorem enter_eq (nesting : Nesting) (kind : ContainerKind) :
    enter nesting kind = some (nesting.enter? kind) := by
  unfold enter Nesting.enter?
  split
  · rfl
  · rename_i room
    rw [bit_eq (Nat.lt_of_not_le room)]
    cases kind <;> rfl

theorem bit_ne_zero {level : Nat} (h : level < 64) : 1#64 <<< level ≠ 0#64 := by
  intro zero
  have set : (1#64 <<< level).getLsbD level = true := by simp [h]
  rw [zero, BitVec.getLsbD_zero] at set
  cases set

theorem inObject_eq {nesting : Nesting} (h : nesting.depth ≤ 64) :
    inObject nesting = some (decide (nesting.innermost? = some .object)) := by
  unfold inObject Nesting.innermost?
  by_cases outside : nesting.depth = 0
  · simp [outside]
  · have inside := Nat.pos_of_ne_zero outside
    have level : nesting.depth - 1 < 64 := by omega
    have masked : nesting.bits &&& 1#64 <<< (nesting.depth - 1) =
        if nesting.bits.getLsbD (nesting.depth - 1) then 1#64 <<< (nesting.depth - 1) else 0#64 :=
      BitVec.and_twoPow nesting.bits (nesting.depth - 1)
    rw [if_pos inside, sub_eq inside, if_neg outside]
    simp only [Option.bind_eq_bind, Option.bind_some, bit_eq level, masked]
    cases object : nesting.bits.getLsbD (nesting.depth - 1) with
    | true => simp [Nesting.kindAt, object, bit_ne_zero level]
    | false => simp [Nesting.kindAt, object]

theorem leave_eq {nesting : Nesting} (h : nesting.depth ≠ 0) :
    leave nesting = some nesting.leave := by
  rw [leave, sub_eq (Nat.pos_of_ne_zero h)]
  rfl

end Nesting

section Lexemes

variable {t : Tokenizer}

/-- The bytes up to a cursor as a token. -/
def take (t : Tokenizer) (kind : TokenKind) (expect : Expect) (nesting : Nesting) (c : Cursor) :
    Option (Answer × Tokenizer) := do
  let raw ← c.slice? t.position c.pos
  some (.ok (some ⟨kind, raw, t.position, c.pos, false⟩), ⟨t.options, expect, nesting, c⟩)

theorem take_eq (h : t.InRange) (kind : TokenKind) {n : Nat} (le : n ≤ t.left) (expect : Expect)
    (nesting : Nesting) :
    take t kind expect nesting (t.cursor.advance n) = some (t.take kind n expect nesting) := by
  have raw := (h.cursor.advance le).slice?_eq
  rw [take, Cursor.advance_pos, Tokenizer.position, raw]
  rfl

def readOpening (t : Tokenizer) (container : ContainerKind) : Option (Answer × Tokenizer) := do
  match ← enter t.nesting container with
  | none => some (t.refuse .nestingTooDeep)
  | some nesting =>
    let c ← advance t.cursor 1
    take t (.opening container)
      (match container with
        | .object => .keyOrEnd
        | .array => .valueOrEnd)
      nesting c

theorem readOpening_eq (h : t.InRange) (container : ContainerKind) (more : 0 < t.left) :
    readOpening t container = some (t.readOpening container) := by
  unfold readOpening Tokenizer.readOpening
  rw [enter_eq]
  cases t.nesting.enter? container with
  | none => rfl
  | some nesting =>
    dsimp only [Option.bind_eq_bind, Option.bind_some]
    rw [advance_eq h.cursor more]
    exact take_eq h _ more _ _

def readClosing (t : Tokenizer) (container : ContainerKind) : Option (Answer × Tokenizer) := do
  let object ← inObject t.nesting
  if t.depth = 0 ∨ object ≠ decide (container = .object) then some (t.refuse .mismatchedClose)
  else
    let c ← advance t.cursor 1
    let nesting ← leave t.nesting
    take t (.closing container) (Tokenizer.afterValue nesting) nesting c

theorem readClosing_eq (h : t.InRange) (container : ContainerKind) (more : 0 < t.left) :
    readClosing t container = some (t.readClosing container) := by
  rw [readClosing, inObject_eq h.depth, Option.bind_eq_bind, Option.bind_some,
    Tokenizer.readClosing]
  by_cases outside : t.nesting.depth = 0
  · have none : t.nesting.innermost? ≠ some container := by simp [Nesting.innermost?, outside]
    rw [if_pos (.inl outside), if_neg none]
  · have matches_iff : t.nesting.innermost? = some container ↔
        decide (t.nesting.innermost? = some .object) = decide (container = .object) := by
      rw [Nesting.innermost?, if_neg outside]
      cases t.nesting.kindAt (t.nesting.depth - 1) <;> cases container <;> simp
    by_cases same : t.nesting.innermost? = some container
    · rw [if_pos same, if_neg (by simp [matches_iff.1 same, Tokenizer.depth, outside]),
        advance_eq h.cursor more, leave_eq outside]
      exact take_eq h _ more _ _
    · rw [if_neg same, if_pos (.inr (mt matches_iff.2 same))]

/-- The bytes of a string from the cursor on up to the next quote or backslash, with the escape that
the backslash begins. -/
def readSegment (t : Tokenizer) (kind : TokenKind) (expect : Expect) (escaped : Bool)
    (c : Cursor) : Option (Turn (Bool × Cursor) (Answer × Tokenizer)) := do
  match ← c.findDelimiter? with
  | none => some (.done (.error ⟨.unterminatedString, t.position⟩, { t with cursor := c }))
  | some stop =>
    let segment ← c.slice? c.pos stop
    if segment.any isControl then some (.done ({ t with cursor := c }.refuse .controlInString))
    else
      let n ← sub stop c.pos
      let c ← advance c n
      if c.peek = some 0x22 then
        let raw ← c.slice? (t.position + 1) stop
        let c ← advance c 1
        some (.done (.ok (some ⟨kind, raw, t.position, stop + 1, escaped⟩),
          ⟨t.options, expect, t.nesting, c⟩))
      else
        let rest ← c.remaining?
        match ← readEscape rest with
        | .error fault => some (.done ({ t with cursor := c }.refuse (.escape fault)))
        | .ok (_, n) =>
          let c ← advance c n
          some (.again (true, c))

/-- The contents of a string from the cursor on, up to the closing quote. -/
def readContents (t : Tokenizer) (kind : TokenKind) (expect : Expect) (escaped : Bool)
    (c : Cursor) : Option (Answer × Tokenizer) :=
  loop (·.2.rest.length) (fun state => readSegment t kind expect state.1 state.2) (escaped, c)

def readQuoted (t : Tokenizer) (kind : TokenKind) (expect : Expect) :
    Option (Answer × Tokenizer) := do
  let c ← advance t.cursor 1
  readContents t kind expect false c

/-- What reading a string comes to, once its contents have been read. -/
def quoted (t : Tokenizer) (kind : TokenKind) (expect : Expect) : Quotation → Answer × Tokenizer
  | .closed n escaped =>
    (.ok (some ⟨kind, (t.cursor.rest.drop 1).take n, t.position, t.position + n + 2, escaped⟩),
      ⟨t.options, expect, t.nesting, t.cursor.advance (n + 2)⟩)
  | .unclosed n => (.error ⟨.unterminatedString, t.position⟩, t.advance (1 + n))
  | .faulty fault n => t.refuseAfter (1 + n) fault

/-- Contents of which some have been read already, with or without an escape. -/
def following (n : Nat) (escaped : Bool) : Quotation → Quotation
  | .closed m escaped' => .closed (n + m) (escaped || escaped')
  | .unclosed m => .unclosed (n + m)
  | .faulty fault m => .faulty fault (n + m)

theorem following_zero (quotation : Quotation) : following 0 false quotation = quotation := by
  cases quotation <;> simp [following]

theorem following_afterEscape (n m : Nat) (escaped : Bool) (quotation : Quotation) :
    following n escaped (quotation.afterEscape m) = following (n + m) true quotation := by
  cases quotation <;> simp [following, Quotation.afterEscape, Nat.add_assoc]

/-- The bytes of a string up to the next quote or backslash. -/
theorem segment {c : Cursor} {b : UInt8} {rest : Bytes} (h : c.InRange)
    (front : c.rest.drop (Extent.plain c.rest) = b :: rest) :
    c.findDelimiter? = some (some (c.pos + Extent.plain c.rest)) ∧
      c.slice? c.pos (c.pos + Extent.plain c.rest) = some (c.rest.take (Extent.plain c.rest)) ∧
      sub (c.pos + Extent.plain c.rest) c.pos = some (Extent.plain c.rest) ∧
      advance c (Extent.plain c.rest) = some (c.advance (Extent.plain c.rest)) ∧
      (c.advance (Extent.plain c.rest)).InRange := by
  have short : Extent.plain c.rest < c.rest.length := by
    have := Quotation.length_eq_of_front front
    omega
  have past := h.advance (Nat.le_of_lt short)
  refine ⟨?_, past.slice?_eq, ?_, advance_eq h (Nat.le_of_lt short), past⟩
  · rw [Cursor.findDelimiter?, h.remaining?_eq, Option.map_some]
    exact congrArg some (if_pos short)
  · rw [sub_eq (Nat.le_add_right _ _), Nat.add_sub_cancel_left]

theorem readSegment_of_quote {kind : TokenKind} {expect : Expect} {escaped : Bool} {c : Cursor}
    {k : Nat} {rest : Bytes} (place : c = t.cursor.advance (1 + k)) (h : c.InRange)
    (front : c.rest.drop (Extent.plain c.rest) = 0x22 :: rest)
    (clean : ¬ (c.rest.take (Extent.plain c.rest)).any isControl) :
    readSegment t kind expect escaped c =
      some (.done (quoted t kind expect (.closed (k + Extent.plain c.rest) escaped))) := by
  obtain ⟨stop, bytes, back, moved, past⟩ := segment h front
  generalize Extent.plain c.rest = n at *
  have ahead : (c.advance n).rest = 0x22 :: rest := front
  have more := Cursor.length_rest_pos ahead
  have whole : c.advance n = (t.cursor.advance 1).advance (k + n) := by
    simp [place, Nat.add_assoc]
  have pos : c.pos + n = (t.cursor.advance 1).pos + (k + n) := congrArg Cursor.pos whole
  have raw : (c.advance n).slice? (t.position + 1) (c.pos + n) =
      some ((t.cursor.rest.drop 1).take (k + n)) := by
    rw [pos, whole]
    exact Cursor.InRange.slice?_eq (whole ▸ past)
  have stop_eq : c.pos + n + 1 = t.position + (k + n) + 2 := by
    rw [pos, Cursor.advance_pos, Tokenizer.position]
    omega
  have cursor_eq : (c.advance n).advance 1 = t.cursor.advance (k + n + 2) := by
    rw [whole, Cursor.advance_advance, Cursor.advance_advance]
    congr 1
    omega
  rw [readSegment]
  simp only [stop, bytes, back, moved, Option.bind_eq_bind, Option.bind_some]
  rw [if_neg clean, if_pos (Cursor.peek_of_rest ahead), raw, Option.bind_some,
    advance_eq past more, Option.bind_some, stop_eq, cursor_eq, quoted]

theorem readSegment_of_backslash {kind : TokenKind} {expect : Expect} {escaped : Bool} {c : Cursor}
    {rest : Bytes} (h : c.InRange) (front : c.rest.drop (Extent.plain c.rest) = 0x5C :: rest)
    (clean : ¬ (c.rest.take (Extent.plain c.rest)).any isControl) :
    readSegment t kind expect escaped c =
      match Escape.read (0x5C :: rest) with
      | .error fault =>
        some (.done ({ t with cursor := c.advance (Extent.plain c.rest) }.refuse (.escape fault)))
      | .ok (_, m) =>
        (advance (c.advance (Extent.plain c.rest)) m).bind fun c => some (.again (true, c)) := by
  obtain ⟨stop, bytes, back, moved, past⟩ := segment h front
  have peek : (c.advance (Extent.plain c.rest)).peek ≠ some 0x22 := by
    rw [Cursor.peek_of_rest front]
    decide
  rw [readSegment]
  simp only [stop, bytes, back, moved, Option.bind_eq_bind, Option.bind_some]
  rw [if_neg clean, if_neg peek, past.remaining?_eq, Option.bind_some, Cursor.advance_rest, front,
    readEscape_eq, Option.bind_some]

theorem readContents_of_again {kind : TokenKind} {expect : Expect} {escaped escaped' : Bool}
    {c d : Cursor} (turn : readSegment t kind expect escaped c = some (.again (escaped', d)))
    (closer : d.rest.length < c.rest.length) :
    readContents t kind expect escaped c = readContents t kind expect escaped' d := by
  unfold readContents
  exact loop_of_again turn closer

theorem readContents_eq (kind : TokenKind) (expect : Expect) (bytes : Bytes) :
    ∀ (k : Nat) (escaped : Bool) (c : Cursor), c = t.cursor.advance (1 + k) → c.InRange →
      c.rest = bytes → readContents t kind expect escaped c =
        some (quoted t kind expect (following k escaped (Quotation.ofFront bytes))) := by
  -- The induction is on how the contents are read, one escape after the other.
  fun_induction Quotation.ofFront bytes with
  | case1 bytes n front =>
    rintro k escaped c place inRange rfl
    have none : c.findDelimiter? = some none := by
      rw [Cursor.findDelimiter?, inRange.remaining?_eq, Option.map_some]
      exact congrArg some (if_neg (Nat.not_lt_of_le (List.drop_eq_nil_iff.1 front)))
    refine loop_of_done ?_
    rw [readSegment, none, place]
    rfl
  | case2 bytes n b rest front control =>
    rintro k escaped c place inRange rfl
    obtain ⟨stop, bytes, -⟩ := segment inRange front
    refine loop_of_done ?_
    rw [readSegment]
    simp only [stop, bytes, Option.bind_eq_bind, Option.bind_some]
    rw [if_pos control, place]
    rfl
  | case3 bytes n rest clean front =>
    rintro k escaped c place inRange rfl
    refine loop_of_done ?_
    rw [readSegment_of_quote place inRange front clean, following, Bool.or_false]
  | case4 bytes n b rest front clean noQuote fault read =>
    rintro k escaped c place inRange rfl
    obtain rfl := Quotation.eq_backslash_of_front front noQuote
    have cursor_eq : c.advance n = t.cursor.advance (1 + (k + n)) := by
      rw [place, Cursor.advance_advance, Nat.add_assoc]
    refine loop_of_done ?_
    rw [readSegment_of_backslash inRange front clean, read, cursor_eq]
    rfl
  | case5 bytes n b rest front clean noQuote ch m read ih =>
    rintro k escaped c place inRange rfl
    obtain rfl := Quotation.eq_backslash_of_front front noQuote
    obtain ⟨-, -, -, -, past⟩ := segment inRange front
    have ahead : (c.advance n).rest = 0x5C :: rest := front
    have count := Escape.read_count read
    rw [← ahead] at count
    have turn : readSegment t kind expect escaped c =
        some (.again (true, (c.advance n).advance m)) := by
      rw [readSegment_of_backslash inRange front clean, read]
      dsimp only
      rw [advance_eq past count.2]
      rfl
    have closer : ((c.advance n).advance m).rest.length < c.rest.length := by
      have length := congrArg List.length ahead
      simp only [Cursor.advance_rest, List.length_drop, List.length_cons] at length ⊢
      omega
    have cursor_eq : c.advance (n + m) = t.cursor.advance (1 + (k + (n + m))) := by
      rw [place, Cursor.advance_advance, Nat.add_assoc]
    rw [readContents_of_again turn closer, following_afterEscape]
    refine ih (k + (n + m)) true _ ?_ (past.advance count.2) ?_
    · rw [Cursor.advance_advance, cursor_eq]
    · rw [Cursor.advance_rest, ahead, ← Nat.sub_add_cancel (Nat.le_of_succ_le count.1),
        List.drop_succ_cons, Nat.add_sub_cancel]

theorem readQuoted_eq (h : t.InRange) (kind : TokenKind) (expect : Expect) (more : 0 < t.left) :
    readQuoted t kind expect = some (t.readQuoted kind expect) := by
  rw [readQuoted, advance_eq h.cursor more, Option.bind_eq_bind, Option.bind_some]
  have contents := readContents_eq kind expect _ 0 false _ rfl (h.cursor.advance more) rfl
  rw [following_zero] at contents
  exact contents

def readNumber (t : Tokenizer) : Option (Answer × Tokenizer) := do
  match ← Numeral.read t.cursor with
  | (some fault, c) => some ({ t with cursor := c }.refuse fault)
  | (none, c) => take t .number (Tokenizer.afterValue t.nesting) t.nesting c

theorem readNumber_eq (h : t.InRange) : readNumber t = some t.readNumber := by
  have within := Json.Numeral.within_read t.cursor.rest
  rw [readNumber, Numeral.read_follows _ h.cursor, Tokenizer.readNumber]
  cases read : Json.Numeral.read t.cursor.rest with
  | error stop => rfl
  | ok n =>
    rw [read] at within
    exact take_eq h _ within _ _

def readLiteral (t : Tokenizer) (kind : TokenKind) (word : Bytes) :
    Option (Answer × Tokenizer) := do
  if ← t.cursor.startsWith? word then
    let c ← advance t.cursor word.length
    take t kind (Tokenizer.afterValue t.nesting) t.nesting c
  else some (t.refuse .invalidLiteral)

theorem readLiteral_eq (h : t.InRange) (kind : TokenKind) (word : Bytes) :
    readLiteral t kind word = some (t.readLiteral kind word) := by
  rw [readLiteral, Cursor.startsWith?, h.cursor.remaining?_eq, Tokenizer.readLiteral]
  by_cases starts : word.isPrefixOf t.cursor.rest
  · have le : word.length ≤ t.left := (List.isPrefixOf_iff_prefix.1 starts).length_le
    rw [if_pos starts, ← take_eq h kind le, Option.map_some, Option.bind_eq_bind, Option.bind_some,
      if_pos starts, advance_eq h.cursor le]
    rfl
  · rw [if_neg starts, Option.map_some, Option.bind_eq_bind, Option.bind_some, if_neg starts]

def readValue (t : Tokenizer) (b : UInt8) : Option (Answer × Tokenizer) :=
  if b = 0x7B then readOpening t .object
  else if b = 0x5B then readOpening t .array
  else if b = 0x22 then readQuoted t .string (Tokenizer.afterValue t.nesting)
  else if b = 0x2D ∨ isDigit b then readNumber t
  else if b = 0x74 then readLiteral t (.boolean true) Tokenizer.trueWord
  else if b = 0x66 then readLiteral t (.boolean false) Tokenizer.falseWord
  else if b = 0x6E then readLiteral t .null Tokenizer.nullWord
  else some (t.refuse .unexpectedCharacter)

def readName (t : Tokenizer) : Option (Answer × Tokenizer) := readQuoted t .propertyName .colon

def readLexeme (t : Tokenizer) : Option (Answer × Tokenizer) :=
  match t.cursor.peek with
  | none => some t.readEnd
  | some b =>
    match t.expect with
    | .done => some (t.refuse .trailingData)
    | .value => readValue t b
    | .valueOrEnd => if b = 0x5D then readClosing t .array else readValue t b
    | .keyOrEnd =>
      if b = 0x7D then readClosing t .object
      else if b = 0x22 then readName t
      else some (t.refuse .expectedNameOrClose)
    | .key => if b = 0x22 then readName t else some (t.refuse .expectedName)
    | .colon => some (t.refuse .expectedColon)
    | .commaOrEnd =>
      if b = 0x7D then readClosing t .object
      else if b = 0x5D then readClosing t .array
      else some (t.refuse .expectedCommaOrClose)

theorem readValue_eq (h : t.InRange) (b : UInt8) (more : 0 < t.left) :
    readValue t b = some (t.readValue b) := by
  unfold readValue Tokenizer.readValue
  repeat' split
  · exact readOpening_eq h _ more
  · exact readOpening_eq h _ more
  · exact readQuoted_eq h _ _ more
  · exact readNumber_eq h
  · exact readLiteral_eq h _ _
  · exact readLiteral_eq h _ _
  · exact readLiteral_eq h _ _
  · rfl

theorem readLexeme_eq (h : t.InRange) : readLexeme t = some t.readLexeme := by
  unfold readLexeme Tokenizer.readLexeme
  cases peek : t.cursor.peek with
  | none => rfl
  | some b =>
    have more : 0 < t.left := Cursor.length_rest_pos (Cursor.rest_of_peek peek)
    cases t.expect with
    | done | colon => rfl
    | value => exact readValue_eq h b more
    | valueOrEnd =>
      dsimp only
      split
      · exact readClosing_eq h _ more
      · exact readValue_eq h b more
    | keyOrEnd =>
      dsimp only
      split
      · exact readClosing_eq h _ more
      · split
        · exact readQuoted_eq h _ _ more
        · rfl
    | key =>
      dsimp only
      split
      · exact readQuoted_eq h _ _ more
      · rfl
    | commaOrEnd =>
      dsimp only
      split
      · exact readClosing_eq h _ more
      · split
        · exact readClosing_eq h _ more
        · rfl

end Lexemes

end Checked

end PathFold.Json
