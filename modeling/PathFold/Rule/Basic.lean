import PathFold.Json.Scalar
import PathFold.Path.View
import PathFold.Rule.Pattern

/-! Rules. A rule waits for scalars that are properties of the container its pattern describes, of one
name and one kind if it says so, and folds each into an aggregate. -/

namespace PathFold

open PathFold.Json (Scalar ScalarKind)

/-- What an action leaves behind: the aggregate, and the frames that it wants invalidated. -/
structure Effect (α : Type) where
  aggregate : α
  requests : List Nat

/-- What a rule does with a scalar, given its raw name, the open path and the aggregate so far. -/
abbrev Action (α : Type) := Scalar → Bytes → View → α → Effect α

structure Rule (α : Type) where
  path : List Marker
  property : Option Bytes
  kind : Option ScalarKind
  action : Action α

def Rule.listing {α : Type} (rule : Rule α) : String :=
  Text.listingPartialRecord "Rule"
    [("path", Text.listing (rule.path.map Marker.listing)),
      ("property", Text.listingOption (rule.property.map fun name => Text.quoted name.toLossyText)),
      ("kind", Text.listingOption (rule.kind.map ScalarKind.label))]

end PathFold
