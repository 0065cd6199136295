import PathFold.Reducer.Basic

/-! A reducer put together step by step. Nothing is checked before it is built. -/

namespace PathFold

structure ReducerBuilder (α : Type) where
  initial : α
  rules : List (Rule α)
  config : Config

namespace ReducerBuilder

variable {α : Type}

def start (initial : α) : ReducerBuilder α := ⟨initial, [], .lenient⟩

def rule (builder : ReducerBuilder α) (rule : Rule α) : ReducerBuilder α :=
  { builder with rules := builder.rules ++ [rule] }

def addRules (builder : ReducerBuilder α) (rules : List (Rule α)) : ReducerBuilder α :=
  { builder with rules := builder.rules ++ rules }

def withConfig (builder : ReducerBuilder α) (config : Config) : ReducerBuilder α :=
  { builder with config := config }

def maxDepth (builder : ReducerBuilder α) (depth : Nat) : ReducerBuilder α :=
  { builder with config := { builder.config with maxDepth := depth } }

def options (builder : ReducerBuilder α) (options : Json.Options) : ReducerBuilder α :=
  { builder with config := { builder.config with options := options } }

def build (builder : ReducerBuilder α) : Except Error (Reducer α) :=
  Reducer.build builder.config builder.initial builder.rules

def listing (builder : ReducerBuilder α) : String :=
  Text.listingPartialRecord "ReducerBuilder"
    [("rules", toString builder.rules.length), ("config", builder.config.listing)]

end ReducerBuilder

end PathFold
