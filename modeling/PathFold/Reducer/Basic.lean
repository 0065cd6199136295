import PathFold.Json.Tokenizer.Run
import PathFold.Reducer.Config
import PathFold.Reducer.Walk

/-! Reducers. A reducer is a compiled rule set with an initial aggregate and settings; reducing a
document folds its matching scalars into the aggregate in one pass. A reducer keeps nothing between
documents. -/

namespace PathFold

structure Reducer (α : Type) where
  rules : RuleSet α
  initial : α
  config : Config

namespace Reducer

variable {α : Type}

/-- The settings are checked before the rules. -/
def build (config : Config) (initial : α) (rules : List (Rule α)) : Except Error (Reducer α) :=
  match config.validate with
  | .error error => .error error
  | .ok () =>
    match RuleSet.compile rules config.maxDepth with
    | .error error => .error error
    | .ok set => .ok ⟨set, initial, config⟩

/-- Reduces what any source of tokens gives, from an explicit aggregate. -/
def observe (reducer : Reducer α) (feed : Json.Feed) (aggregate : α) : Outcome α :=
  (Walk.start reducer.config.maxDepth aggregate).run reducer.rules feed.failure feed.pulls

/-- The tokens of a document, read with the reducer's settings. -/
def feedOf (reducer : Reducer α) (document : Bytes) : Json.Feed :=
  (Json.Tokenizer.start reducer.config.options document).feed

def observeDocument (reducer : Reducer α) (document : Bytes) (aggregate : α) : Outcome α :=
  reducer.observe (reducer.feedOf document) aggregate

def processTokens (reducer : Reducer α) (feed : Json.Feed) (aggregate : α) : Except Error α :=
  (reducer.observe feed aggregate).result

def processWith (reducer : Reducer α) (document : Bytes) (aggregate : α) : Except Error α :=
  reducer.processTokens (reducer.feedOf document) aggregate

/-- Reduces a document from the initial aggregate. -/
def process (reducer : Reducer α) (document : Bytes) : Except Error α :=
  reducer.processWith document reducer.initial

def listing (reducer : Reducer α) (initial : String) : String :=
  Text.listingRecord "Reducer"
    [("rules", reducer.rules.listing), ("initial", initial), ("config", reducer.config.listing)]

end Reducer

end PathFold
