import PathFold.Json.Tokenizer
import PathFold.Path.Stack

/-! The settings of a reducer: how deep documents may nest, and what the tokenizer accepts. -/

namespace PathFold

structure Config where
  maxDepth : Nat
  options : Json.Options
  deriving DecidableEq, Repr

namespace Config

def lenient : Config := ⟨Path.maxDepth, .lenient⟩

def strict : Config := ⟨Path.maxDepth, .strict⟩

/-- The depth has to be at least 1 and within the bound of all paths. -/
def validate (config : Config) : Except Error Unit :=
  if config.maxDepth = 0 ∨ Path.maxDepth < config.maxDepth then
    .error (.invalidConfig (.depthOutOfRange Path.maxDepth config.maxDepth))
  else .ok ()

def listing (config : Config) : String :=
  Text.listingRecord "ReducerConfig"
    [("max_depth", toString config.maxDepth), ("tokenizer", config.options.listing)]

end Config

end PathFold
