import PathFold.Decimal.Text
import PathFold.Json.Escape
import PathFold.Json.Token

/-! Scalars: the values that hold no others. A scalar keeps its raw bytes, and what they mean as text
or as a number is worked out when asked for. -/

namespace PathFold.Json

inductive ScalarKind where
  | string
  | number
  | bool
  | null
  deriving DecidableEq, Repr

/-- The name of the kind in patterns. -/
def ScalarKind.name : ScalarKind → String
  | .string => "string"
  | .number => "number"
  | .bool => "bool"
  | .null => "null"

def ScalarKind.label : ScalarKind → String
  | .string => "String"
  | .number => "Number"
  | .bool => "Bool"
  | .null => "Null"

/-- The kind of the scalar that a token is, unless it is structure. -/
def TokenKind.scalarKind? : TokenKind → Option ScalarKind
  | .string => some .string
  | .number => some .number
  | .boolean _ => some .bool
  | .null => some .null
  | .opening _ | .closing _ | .propertyName => none

/-- The flag says whether the raw bytes hold an escape; it decides how strings are compared. -/
structure Scalar where
  kind : ScalarKind
  raw : Bytes
  escaped : Bool
  deriving DecidableEq, Repr

namespace Scalar

def ofRaw (kind : ScalarKind) (raw : Bytes) : Scalar := ⟨kind, raw, Escape.hasEscape raw⟩

def ofToken? (token : Token) : Option Scalar :=
  token.kind.scalarKind?.map fun kind => ⟨kind, token.raw, token.escaped⟩

theorem isSome_of_ofToken? {token : Token} {scalar : Scalar}
    (h : ofToken? token = some scalar) : token.kind.scalarKind?.isSome := by
  obtain ⟨kind, known, -⟩ := Option.map_eq_some_iff.1 h
  rw [known]
  rfl

/-- Whether this is a string that denotes the given text. -/
def isText (scalar : Scalar) (text : Bytes) : Bool :=
  scalar.kind = .string &&
    if scalar.escaped then Escape.decodesTo scalar.raw text else scalar.raw == text

def text? (scalar : Scalar) : Option String :=
  if scalar.kind = .string then (Escape.decode scalar.raw).toOption else none

def bool? (scalar : Scalar) : Option Bool :=
  if scalar.kind = .bool then some (scalar.raw == Bytes.ofText "true") else none

def isNull (scalar : Scalar) : Bool := scalar.kind = .null

/-- The raw bytes of a number. -/
def numeral? (scalar : Scalar) : Option Bytes :=
  if scalar.kind = .number then some scalar.raw else none

def int64? (scalar : Scalar) : Option Int64 := scalar.numeral?.bind Decimal.int64?

def uint64? (scalar : Scalar) : Option UInt64 := scalar.numeral?.bind Decimal.uint64?

def float? (scalar : Scalar) : Option Float := scalar.numeral?.bind Decimal.float?

end Scalar

end PathFold.Json
