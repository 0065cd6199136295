import PathFold.Json.Cursor
import PathFold.Json.Gap
import PathFold.Json.Numeral
import PathFold.Json.Quotation
import PathFold.Json.Token

/-! The tokenizer. It holds what the grammar accepts next and the open containers, and reads one token
at a time. One call passes a gap, at most one separator with the gap after it, and one lexeme. A fault
leaves the grammar state as it was and the cursor where reading stopped, so calls may go on after it. -/

namespace PathFold.Json

/-- What the tokenizer accepts beyond the strict grammar. -/
structure Options where
  trailingCommas : Bool
  comments : Bool
  deriving DecidableEq, Repr

namespace Options

def lenient : Options := ⟨true, true⟩

def strict : Options := ⟨false, false⟩

def listing (options : Options) : String :=
  Text.listingRecord "TokenizerOptions"
    [("allow_trailing_commas", toString options.trailingCommas),
      ("allow_comments", toString options.comments)]

end Options

/-- What the grammar accepts next. -/
inductive Expect where
  | value
  | valueOrEnd
  | keyOrEnd
  | key
  | colon
  | commaOrEnd
  | done
  deriving DecidableEq, Repr

def Expect.label : Expect → String
  | .value => "Value"
  | .valueOrEnd => "ValueOrEnd"
  | .keyOrEnd => "KeyOrEnd"
  | .key => "Key"
  | .colon => "Colon"
  | .commaOrEnd => "CommaOrEnd"
  | .done => "Done"

structure Tokenizer where
  options : Options
  expect : Expect
  nesting : Nesting
  cursor : Cursor

namespace Tokenizer

/-- What a call gives: a token, the end, or an error. -/
abbrev Answer := Except ParseError (Option Token)

def start (options : Options) (input : Bytes) : Tokenizer :=
  ⟨options, .value, .empty, .start input⟩

def position (t : Tokenizer) : Nat := t.cursor.pos

def depth (t : Tokenizer) : Nat := t.nesting.depth

def listing (t : Tokenizer) : String :=
  Text.listingRecord "Tokenizer"
    [("position", toString t.position), ("depth", toString t.depth), ("expect", t.expect.label)]

def advance (t : Tokenizer) (n : Nat) : Tokenizer := { t with cursor := t.cursor.advance n }

/-- Refuses the byte at the cursor. -/
def refuse (t : Tokenizer) (fault : Fault) : Answer × Tokenizer :=
  (.error ⟨fault, t.position⟩, t)

/-- Moves on and reports a fault there. -/
def refuseAfter (t : Tokenizer) (n : Nat) (fault : Fault) : Answer × Tokenizer :=
  (t.advance n).refuse fault

/-- What the grammar accepts after a whole value inside these containers. -/
def afterValue (nesting : Nesting) : Expect := if nesting.depth = 0 then .done else .commaOrEnd

/-- Takes the next `n` bytes as a token whose bytes all count. -/
def take (t : Tokenizer) (kind : TokenKind) (n : Nat) (expect : Expect) (nesting : Nesting) :
    Answer × Tokenizer :=
  (.ok (some ⟨kind, t.cursor.rest.take n, t.position, t.position + n, false⟩),
    ⟨t.options, expect, nesting, t.cursor.advance n⟩)

def readOpening (t : Tokenizer) (container : ContainerKind) : Answer × Tokenizer :=
  match t.nesting.enter? container with
  | none => t.refuse .nestingTooDeep
  | some nesting =>
    t.take (.opening container) 1
      (match container with
        | .object => .keyOrEnd
        | .array => .valueOrEnd)
      nesting

def readClosing (t : Tokenizer) (container : ContainerKind) : Answer × Tokenizer :=
  if t.nesting.innermost? = some container then
    t.take (.closing container) 1 (afterValue t.nesting.leave) t.nesting.leave
  else t.refuse .mismatchedClose

/-- Reads a quoted string at its opening quote. A string that is never closed is reported where it
starts; any other fault is reported where reading stops. -/
def readQuoted (t : Tokenizer) (kind : TokenKind) (expect : Expect) : Answer × Tokenizer :=
  let content := t.cursor.rest.drop 1
  match Quotation.ofFront content with
  | .closed n escaped =>
    (.ok (some ⟨kind, content.take n, t.position, t.position + n + 2, escaped⟩),
      ⟨t.options, expect, t.nesting, t.cursor.advance (n + 2)⟩)
  | .unclosed n => (.error ⟨.unterminatedString, t.position⟩, t.advance (1 + n))
  | .faulty fault n => t.refuseAfter (1 + n) fault

def readNumber (t : Tokenizer) : Answer × Tokenizer :=
  match Numeral.read t.cursor.rest with
  | .ok n => t.take .number n (afterValue t.nesting) t.nesting
  | .error stop => t.refuseAfter stop.offset stop.fault

def readLiteral (t : Tokenizer) (kind : TokenKind) (word : Bytes) : Answer × Tokenizer :=
  if word.isPrefixOf t.cursor.rest then
    t.take kind word.length (afterValue t.nesting) t.nesting
  else t.refuse .invalidLiteral

def trueWord : Bytes := [0x74, 0x72, 0x75, 0x65]

def falseWord : Bytes := [0x66, 0x61, 0x6C, 0x73, 0x65]

def nullWord : Bytes := [0x6E, 0x75, 0x6C, 0x6C]

/-- Reads the lexeme of a value by its first byte. -/
def readValue (t : Tokenizer) (b : UInt8) : Answer × Tokenizer :=
  if b = 0x7B then t.readOpening .object
  else if b = 0x5B then t.readOpening .array
  else if b = 0x22 then t.readQuoted .string (afterValue t.nesting)
  else if b = 0x2D ∨ isDigit b then t.readNumber
  else if b = 0x74 then t.readLiteral (.boolean true) trueWord
  else if b = 0x66 then t.readLiteral (.boolean false) falseWord
  else if b = 0x6E then t.readLiteral .null nullWord
  else t.refuse .unexpectedCharacter

def readName (t : Tokenizer) : Answer × Tokenizer := t.readQuoted .propertyName .colon

/-- At the end of the input the document is complete, missing, or cut off inside containers; what a
cut-off document means is for the caller to say. -/
def readEnd (t : Tokenizer) : Answer × Tokenizer :=
  if t.depth = 0 ∧ t.expect ≠ .done then t.refuse .noValue else (.ok none, t)

/-- Reads the lexeme at the cursor as the grammar state asks. -/
def readLexeme (t : Tokenizer) : Answer × Tokenizer :=
  match t.cursor.peek with
  | none => t.readEnd
  | some b =>
    match t.expect with
    | .done => t.refuse .trailingData
    | .value => t.readValue b
    | .valueOrEnd => if b = 0x5D then t.readClosing .array else t.readValue b
    | .keyOrEnd =>
      if b = 0x7D then t.readClosing .object
      else if b = 0x22 then t.readName
      else t.refuse .expectedNameOrClose
    | .key => if b = 0x22 then t.readName else t.refuse .expectedName
    | .colon => t.refuse .expectedColon
    | .commaOrEnd =>
      if b = 0x7D then t.readClosing .object
      else if b = 0x5D then t.readClosing .array
      else t.refuse .expectedCommaOrClose

/-- What the grammar accepts after a comma inside these containers. -/
def afterComma (t : Tokenizer) : Expect :=
  match t.nesting.innermost?, t.options.trailingCommas with
  | some .object, true => .keyOrEnd
  | some .object, false => .key
  | _, true => .valueOrEnd
  | _, false => .value

/-- Past the separator at the cursor, if one stands there and the grammar state asks for it. -/
def passSeparator? (t : Tokenizer) : Option Tokenizer :=
  match t.expect with
  | .colon =>
    if t.cursor.peek = some 0x3A then some { t.advance 1 with expect := .value } else none
  | .commaOrEnd =>
    if t.cursor.peek = some 0x2C then some { t.advance 1 with expect := t.afterComma } else none
  | _ => none

/-- Past the gap at the cursor, and whether the gap is closed. -/
def passGap (t : Tokenizer) : Bool × Tokenizer :=
  let gap := Gap.ofFront t.options.comments t.cursor.rest
  (gap.closed, t.advance gap.length)

/-- Reads on after a gap. -/
def afterGap (t : Tokenizer) (read : Tokenizer → Answer × Tokenizer) : Answer × Tokenizer :=
  match t.passGap with
  | (true, t) => read t
  | (false, t) => t.refuse .unterminatedComment

/-- The next token, the end of the input, or an error, and the tokenizer after it. -/
def next (t : Tokenizer) : Answer × Tokenizer :=
  t.afterGap fun t =>
    match t.passSeparator? with
    | none => t.readLexeme
    | some t => t.afterGap readLexeme

end Tokenizer

end PathFold.Json
