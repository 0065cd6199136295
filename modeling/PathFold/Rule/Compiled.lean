import PathFold.Path.Stack
import PathFold.Rule.Basic

/-! Compiled rules. A rule set resolves every name of its rules to a symbol of one table, in the order
in which the rules are added: first the names of a rule's pattern, then its property. Rules are filed
by the depth of their patterns, since only those of the current depth can match; each file keeps the
order of the rules. -/

namespace PathFold

open PathFold.Json (ScalarKind)

structure CompiledRule (α : Type) where
  frames : List Frame
  property : Option Symbol
  kind : Option ScalarKind
  action : Action α

namespace CompiledRule

variable {α : Type}

/-- The depth at which the rule can match. -/
def depth (rule : CompiledRule α) : Nat := rule.frames.length

/-- Whether a property of this name and kind, at the end of this path, is one the rule waits for. -/
def accepts (rule : CompiledRule α) (path : Path) (property : Symbol) (kind : ScalarKind) : Bool :=
  rule.property.all (· == property) && rule.kind.all (· == kind) && path.fits rule.frames

/-- A rule accepts properties at its own depth only. -/
theorem depth_of_accepts {rule : CompiledRule α} {path : Path} {property : Symbol}
    {kind : ScalarKind} (h : rule.accepts path property kind = true) : path.depth = rule.depth :=
  Frame.length_eq_of_allFit (Bool.and_eq_true_iff.1 h).2

def listing (rule : CompiledRule α) : String :=
  Text.listingPartialRecord "CompiledRule"
    [("segments", Text.listing (rule.frames.map Frame.listing)),
      ("property", Text.listingOption (rule.property.map Symbol.listing)),
      ("kind", Text.listingOption (rule.kind.map ScalarKind.label))]

end CompiledRule

structure RuleSet (α : Type) where
  symbols : SymbolTable
  rules : List (CompiledRule α)
  /-- The indices of the rules of each depth, from depth 0 up to the greatest allowed. -/
  byDepth : List (List Nat)

namespace RuleSet

variable {α : Type}

def empty (maxDepth : Nat) : RuleSet α := ⟨.empty, [], List.replicate (maxDepth + 1) []⟩

def size (set : RuleSet α) : Nat := set.rules.length

def isEmpty (set : RuleSet α) : Bool := set.rules.isEmpty

def get? (set : RuleSet α) (index : Nat) : Option (CompiledRule α) := set.rules[index]?

/-- The indices of the rules that can match at a depth, in ascending order. -/
def candidates (set : RuleSet α) (depth : Nat) : List Nat := set.byDepth[depth]?.getD []

/-- The symbol of an optional name, recorded if there is one. -/
def recordOption (table : SymbolTable) : Option Bytes → Except Error (Option Symbol × SymbolTable)
  | none => .ok (none, table)
  | some name =>
    match table.record name with
    | .error error => .error error
    | .ok (symbol, table) => .ok (some symbol, table)

/-- Compiles one more rule. The index in its errors is its place among the rules. -/
def add (maxDepth : Nat) (set : RuleSet α) (rule : Rule α) : Except Error (RuleSet α) :=
  match Pattern.compile rule.path set.symbols with
  | .error (.invalid fault) => .error (.invalidPattern set.size fault)
  | .error (.full error) => .error error
  | .ok (frames, symbols) =>
    if maxDepth < frames.length then .error (.patternTooDeep set.size frames.length maxDepth)
    else match recordOption symbols rule.property with
      | .error error => .error error
      | .ok (property, symbols) =>
        .ok ⟨symbols, set.rules ++ [⟨frames, property, rule.kind, rule.action⟩],
          set.byDepth.modify frames.length (· ++ [set.size])⟩

/-- Compiles rules one after the other, up to the first that is refused. -/
def compile (rules : List (Rule α)) (maxDepth : Nat) : Except Error (RuleSet α) :=
  rules.foldlM (add maxDepth) (empty maxDepth)

/-- A pattern with its names: the containers, then the property after a point, then the kind. -/
def describe (set : RuleSet α) (rule : CompiledRule α) : String :=
  " ".intercalate (rule.frames.map (·.describe set.symbols)) ++
    (match rule.property with
      | some symbol => " ." ++ set.symbols.describe symbol
      | none => "") ++
    (match rule.kind with
      | some kind => " (" ++ kind.name ++ ")"
      | none => "")

def listing (set : RuleSet α) : String :=
  Text.listingRecord "RuleSet"
    [("symbols", toString set.symbols.size),
      ("rules", Text.listing (set.rules.map CompiledRule.listing))]

end RuleSet

end PathFold
