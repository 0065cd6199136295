import PathFold.Json.Token

/-! The grammar of lexemes and of the gaps between them, as relations on bytes. Nothing here reads,
and nothing is taken from the readers: each relation writes its bytes out, and the readers of the
tokenizer are compared with it. -/

namespace PathFold.Json

/-- The first `*/` that follows a block comment's opening comes right after its body. -/
def ClosesFirst (body : Bytes) : Prop := ¬ [0x2A, 0x2F] <:+: body ++ [0x2A]

/-- A space, a tab, a line feed or a carriage return. -/
def IsBlank (b : UInt8) : Prop := b = 0x20 ∨ b = 0x09 ∨ b = 0x0A ∨ b = 0x0D
  deriving Decidable

/-- Blanks and, where they are allowed, closed comments. -/
inductive IsGap (comments : Bool) : Bytes → Prop
  | nil : IsGap comments []
  | blank {b rest} : IsBlank b → IsGap comments rest → IsGap comments (b :: rest)
  | line {body rest} : comments → 0x0A ∉ body → IsGap comments rest →
      IsGap comments (0x2F :: 0x2F :: (body ++ 0x0A :: rest))
  | block {body rest} : comments → ClosesFirst body → IsGap comments rest →
      IsGap comments (0x2F :: 0x2A :: (body ++ 0x2A :: 0x2F :: rest))

/-- The gap at the end of a document, which may stop inside a line comment. -/
inductive IsLastGap (comments : Bool) : Bytes → Prop
  | closed {gap} : IsGap comments gap → IsLastGap comments gap
  | openLine {gap body} : comments → IsGap comments gap → 0x0A ∉ body →
      IsLastGap comments (gap ++ 0x2F :: 0x2F :: body)

def IsDigit (b : UInt8) : Prop := 0x30 ≤ b ∧ b ≤ 0x39
  deriving Decidable

def IsDigits (bytes : Bytes) : Prop := bytes ≠ [] ∧ ∀ b ∈ bytes, IsDigit b

/-- A single zero, or digits of which the first is not zero. -/
def IsWhole (bytes : Bytes) : Prop :=
  bytes = [0x30] ∨ (IsDigits bytes ∧ bytes.head? ≠ some 0x30)

def IsFraction (bytes : Bytes) : Prop :=
  bytes = [] ∨ ∃ digits, IsDigits digits ∧ bytes = 0x2E :: digits

def IsExponent (bytes : Bytes) : Prop :=
  bytes = [] ∨ ∃ mark sign digits, (mark = 0x65 ∨ mark = 0x45) ∧
    (sign = [] ∨ sign = [0x2B] ∨ sign = [0x2D]) ∧ IsDigits digits ∧ bytes = mark :: (sign ++ digits)

/-- The numbers of RFC 8259: `-?(0|[1-9][0-9]*)(\.[0-9]+)?([eE][+-]?[0-9]+)?`. -/
def IsNumeral (bytes : Bytes) : Prop :=
  ∃ sign whole fraction exponent, (sign = [] ∨ sign = [0x2D]) ∧ IsWhole whole ∧
    IsFraction fraction ∧ IsExponent exponent ∧ bytes = sign ++ (whole ++ (fraction ++ exponent))

/-- A hexadecimal digit of either case, and its value. -/
def IsHexDigit (b : UInt8) (value : Nat) : Prop :=
  (value < 10 ∧ b.toNat = 0x30 + value) ∨
    (10 ≤ value ∧ value < 16 ∧ (b.toNat = 0x57 + value ∨ b.toNat = 0x37 + value))

/-- Four hexadecimal digits, and the number they write. -/
inductive IsHex4 : Bytes → Nat → Prop
  | intro {a b c d i j k l} : IsHexDigit a i → IsHexDigit b j → IsHexDigit c k → IsHexDigit d l →
      IsHex4 [a, b, c, d] (((i * 16 + j) * 16 + k) * 16 + l)

/-- The bytes that are an escape together with the backslash before them, and what they stand for.
-/
def simpleEscapes : List (UInt8 × Nat) :=
  [(0x22, 0x22), (0x5C, 0x5C), (0x2F, 0x2F), (0x62, 0x08), (0x66, 0x0C), (0x6E, 0x0A), (0x72, 0x0D),
    (0x74, 0x09)]

/-- An escape, and the code point it stands for. Surrogates come only in pairs, the high one first.
-/
inductive IsEscape : Bytes → Nat → Prop
  | simple {b code} : (b, code) ∈ simpleEscapes → IsEscape [0x5C, b] code
  | unit {digits code} : IsHex4 digits code → (code < 0xD800 ∨ 0xE000 ≤ code) →
      IsEscape (0x5C :: 0x75 :: digits) code
  | pair {digits high digits' low} : IsHex4 digits high → 0xD800 ≤ high → high < 0xDC00 →
      IsHex4 digits' low → 0xDC00 ≤ low → low < 0xE000 →
      IsEscape (0x5C :: 0x75 :: (digits ++ 0x5C :: 0x75 :: digits'))
        (0x10000 + (high - 0xD800) * 0x400 + (low - 0xDC00))

/-- What may stand between the quotes of a string: escapes, and any other bytes but controls, quotes
and backslashes. -/
inductive IsContents : Bytes → Prop
  | nil : IsContents []
  | plain {b rest} : 0x20 ≤ b → b ≠ 0x22 → b ≠ 0x5C → IsContents rest → IsContents (b :: rest)
  | escape {bytes code rest} : IsEscape bytes code → IsContents rest → IsContents (bytes ++ rest)

/-- A token without its place: its kind and its bytes, for strings and names those between the
quotes. -/
structure Lexeme where
  kind : TokenKind
  raw : Bytes
  deriving DecidableEq, Repr

def Token.lexeme (token : Token) : Lexeme := ⟨token.kind, token.raw⟩

/-- How a string or a name is written. -/
def quoted (raw : Bytes) : Bytes := 0x22 :: (raw ++ [0x22])

/-- The bytes that write a scalar, and its lexeme. -/
inductive IsScalar : Bytes → Lexeme → Prop
  | string {raw} : IsContents raw → IsScalar (quoted raw) ⟨.string, raw⟩
  | number {raw} : IsNumeral raw → IsScalar raw ⟨.number, raw⟩
  | yes : IsScalar [0x74, 0x72, 0x75, 0x65] ⟨.boolean true, [0x74, 0x72, 0x75, 0x65]⟩
  | no : IsScalar [0x66, 0x61, 0x6C, 0x73, 0x65] ⟨.boolean false, [0x66, 0x61, 0x6C, 0x73, 0x65]⟩
  | null : IsScalar [0x6E, 0x75, 0x6C, 0x6C] ⟨.null, [0x6E, 0x75, 0x6C, 0x6C]⟩

end PathFold.Json
