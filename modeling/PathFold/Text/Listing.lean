/-! The one-line listing of a value: records with named fields in braces, lists in brackets, pairs in
parentheses, and an absent value as `None`. The pieces given are listings already. -/

namespace PathFold.Text

def listing (items : List String) : String := "[" ++ ", ".intercalate items ++ "]"

def listingPair (first second : String) : String := "(" ++ first ++ ", " ++ second ++ ")"

/-- One argument in parentheses after its name. -/
def listingCall (name argument : String) : String := name ++ "(" ++ argument ++ ")"

def listingOption : Option String → String
  | none => "None"
  | some item => listingCall "Some" item

def listingField (field : String × String) : String := field.1 ++ ": " ++ field.2

def listingRecord (name : String) (fields : List (String × String)) : String :=
  name ++ " \x7b " ++ ", ".intercalate (fields.map listingField) ++ " \x7d"

/-- A record that keeps some of its fields to itself. -/
def listingPartialRecord (name : String) (fields : List (String × String)) : String :=
  name ++ " \x7b " ++ ", ".intercalate (fields.map listingField) ++ ", .. \x7d"

end PathFold.Text
