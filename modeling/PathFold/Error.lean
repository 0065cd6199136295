import PathFold.Json.Fault

/-! Errors of building a reducer and of reducing a document. They fall into three classes:
configuration errors arise before any document is read, traversal errors when the path and the tokens
disagree, and malformed documents carry the error of their source unchanged. -/

namespace PathFold

/-- Why the markers of a pattern describe no path. -/
inductive PatternFault where
  | startsWithName
  | nameInArray
  | nameOpensNothing
  | empty
  | other (text : String)
  deriving DecidableEq, Repr

def PatternFault.message : PatternFault → String
  | .startsWithName => "pattern must start with '\x7b' or '['"
  | .nameInArray => "array elements have no property names"
  | .nameOpensNothing => "property name must be followed by '\x7b' or '['"
  | .empty => "empty pattern"
  | .other text => text

/-- Which setting cannot be honoured. -/
inductive ConfigFault where
  | depthOutOfRange (limit given : Nat)
  | other (text : String)
  deriving DecidableEq, Repr

def ConfigFault.message : ConfigFault → String
  | .depthOutOfRange limit given => s!"max_depth must be between 1 and {limit}, got {given}"
  | .other text => text

inductive Error where
  | symbolCapacity (capacity : Nat)
  | patternTooDeep (rule depth max : Nat)
  | invalidPattern (rule : Nat) (fault : PatternFault)
  | invalidConfig (fault : ConfigFault)
  | stackOverflow (max : Nat)
  | stackUnderflow
  | truncatedDocument (depth : Nat)
  | malformed (error : Json.ParseError)
  deriving DecidableEq, Repr

namespace Error

/-- Raised while a reducer is built. -/
def isConfiguration : Error → Bool
  | symbolCapacity _ | patternTooDeep .. | invalidPattern .. | invalidConfig _ => true
  | _ => false

/-- Raised where the path and the tokens disagree. -/
def isTraversal : Error → Bool
  | stackOverflow _ | stackUnderflow | truncatedDocument _ => true
  | _ => false

def isMalformed : Error → Bool
  | malformed _ => true
  | _ => false

/-- The three classes have no error in common and leave none out. -/
theorem one_class (e : Error) :
    (e.isConfiguration.toNat + e.isTraversal.toNat + e.isMalformed.toNat) = 1 := by
  cases e <;> rfl

def message : Error → String
  | symbolCapacity capacity => s!"symbol table full: at most {capacity} distinct property names"
  | patternTooDeep rule depth max =>
    s!"rule {rule}: pattern depth {depth} exceeds maximum of {max}"
  | invalidPattern rule fault => s!"rule {rule}: invalid pattern: " ++ fault.message
  | invalidConfig fault => "config error: " ++ fault.message
  | stackOverflow max => s!"document nesting exceeds maximum depth of {max}"
  | stackUnderflow => "path stack underflow: container closed with no open container"
  | truncatedDocument depth =>
    s!"truncated document: {depth} container(s) still open at end of input"
  | malformed error => "malformed JSON: " ++ error.message

def listing : Error → String
  | symbolCapacity capacity =>
    Text.listingRecord "SymbolCapacity" [("capacity", toString capacity)]
  | patternTooDeep rule depth max =>
    Text.listingRecord "PatternTooDeep"
      [("rule", toString rule), ("depth", toString depth), ("max", toString max)]
  | invalidPattern rule fault =>
    Text.listingRecord "InvalidPattern"
      [("rule", toString rule), ("reason", Text.quoted fault.message)]
  | invalidConfig fault => Text.listingCall "InvalidConfig" (Text.quoted fault.message)
  | stackOverflow max => Text.listingRecord "StackOverflow" [("max", toString max)]
  | stackUnderflow => "StackUnderflow"
  | truncatedDocument depth => Text.listingRecord "TruncatedDocument" [("depth", toString depth)]
  | malformed error => Text.listingCall "Malformed" error.listing

end Error

end PathFold
