import PathFold.Text.Listing
import PathFold.Text.Quoted

/-! What can be wrong with a document, as causes. The wording of a cause is in one place, its
`message`; a `ParseError` is a cause with the byte position at which it is reported. -/

namespace PathFold.Json

/-- What can be wrong with one escape sequence of a string. -/
inductive EscapeFault where
  | unknown
  | unterminated
  | truncatedUnicode
  | badHexDigit
  | unpairedLow
  | unpairedHigh
  | notACharacter
  deriving DecidableEq, Repr

def EscapeFault.message : EscapeFault → String
  | .unknown => "Invalid escape sequence"
  | .unterminated => "Unterminated escape sequence"
  | .truncatedUnicode => "Truncated unicode escape"
  | .badHexDigit => "Invalid hex digit in unicode escape"
  | .unpairedLow => "Unpaired low surrogate"
  | .unpairedHigh => "Unpaired high surrogate"
  | .notACharacter => "Invalid unicode escape"

/-- Why the contents of a string denote no text. -/
inductive DecodeFault where
  | escape (fault : EscapeFault)
  | invalidUtf8
  deriving DecidableEq, Repr

def DecodeFault.message : DecodeFault → String
  | .escape fault => fault.message
  | .invalidUtf8 => "Invalid UTF-8 in string"

/-- What can be wrong with a document. A source of tokens other than the tokenizer may have causes of
its own, which it words itself. -/
inductive Fault where
  | noValue
  | trailingData
  | unexpectedCharacter
  | expectedNameOrClose
  | expectedName
  | expectedColon
  | expectedCommaOrClose
  | mismatchedClose
  | nestingTooDeep
  | unterminatedComment
  | unterminatedString
  | controlInString
  | escape (fault : EscapeFault)
  | invalidNumber
  | expectedFractionDigit
  | expectedExponentDigit
  | invalidLiteral
  | expectedValue
  | other (text : String)
  deriving DecidableEq, Repr

def Fault.message : Fault → String
  | .noValue => "Unexpected end of input: no JSON value"
  | .trailingData => "Trailing data after document"
  | .unexpectedCharacter => "Unexpected character"
  | .expectedNameOrClose => "Expected property name or '\x7d'"
  | .expectedName => "Expected property name"
  | .expectedColon => "Expected ':' after property name"
  | .expectedCommaOrClose => "Expected ',' or closing delimiter"
  | .mismatchedClose => "Mismatched closing delimiter"
  | .nestingTooDeep => "Maximum nesting depth exceeded"
  | .unterminatedComment => "Unterminated comment"
  | .unterminatedString => "Unterminated string"
  | .controlInString => "Unescaped control character in string"
  | .escape fault => fault.message
  | .invalidNumber => "Invalid number"
  | .expectedFractionDigit => "Expected digit after decimal point"
  | .expectedExponentDigit => "Expected digit in exponent"
  | .invalidLiteral => "Invalid literal"
  | .expectedValue => "Expected value after property name"
  | .other text => text

structure ParseError where
  fault : Fault
  position : Nat
  deriving DecidableEq, Repr

namespace ParseError

def message (e : ParseError) : String := s!"{e.fault.message} at byte {e.position}"

def listing (e : ParseError) : String :=
  Text.listingRecord "ParseError"
    [("message", Text.quoted e.fault.message), ("position", toString e.position)]

end ParseError

end PathFold.Json
