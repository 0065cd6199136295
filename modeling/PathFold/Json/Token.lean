import PathFold.Bytes
import PathFold.Json.Container
import PathFold.Json.Fault
import PathFold.Text.Listing

/-! Tokens: the lexemes of a document that carry content. A token keeps the bytes as they stand in the
document, where they stand, and whether they hold an escape. -/

namespace PathFold.Json

inductive TokenKind where
  | opening (container : ContainerKind)
  | closing (container : ContainerKind)
  | propertyName
  | string
  | number
  | boolean (value : Bool)
  | null
  deriving DecidableEq, Repr

def TokenKind.label : TokenKind → String
  | .opening container => "Start" ++ container.label
  | .closing container => "End" ++ container.label
  | .propertyName => "PropertyName"
  | .string => "String"
  | .number => "Number"
  | .boolean true => "True"
  | .boolean false => "False"
  | .null => "Null"

/-- The bytes between the quotes for strings and names, all bytes for other tokens; the span from
`start` up to `stop` includes the quotes. -/
structure Token where
  kind : TokenKind
  raw : Bytes
  start : Nat
  stop : Nat
  escaped : Bool
  deriving DecidableEq, Repr

def Token.listing (token : Token) : String :=
  Text.listingRecord "Token"
    [("kind", token.kind.label),
      ("raw", Text.listing (token.raw.map (toString ·.toNat))),
      ("span", Text.listingPair (toString token.start) (toString token.stop)),
      ("escaped", toString token.escaped)]

/-- A token as it is pulled from a source, with the number of containers open after it. -/
structure Pull where
  token : Token
  depth : Nat
  deriving DecidableEq, Repr

/-- What a source of tokens gives: some tokens, and then either its end or an error. -/
structure Feed where
  pulls : List Pull
  failure : Option ParseError
  deriving DecidableEq, Repr

end PathFold.Json
