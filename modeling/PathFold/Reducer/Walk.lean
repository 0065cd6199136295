import PathFold.Rule.Dispatch

/-! The walk over the tokens of a document. One token at a time moves the path: an opening delimiter
extends it, a closing one shortens it, and a scalar under a property name is dispatched to the rules.
A property name waits for the token after it. -/

namespace PathFold

open PathFold.Json (Feed ParseError Pull Scalar Token TokenKind)

/-- What can be seen of a walk while it goes on: a token with the depth its source reports and the
path after the token, or the rule whose action is about to run. -/
inductive Event where
  | token (kind : TokenKind) (depth : Nat) (frames : List Frame)
  | fired (rule : Nat)
  deriving DecidableEq, Repr

/-- A property name whose value has not come yet. -/
structure Pending where
  name : Bytes
  symbol : Symbol
  deriving DecidableEq, Repr

/-- Where a walk stands between two tokens. -/
structure Walk (α : Type) where
  path : Path
  aggregate : α
  pending : Option Pending

/-- All that a walk came to: how it ended, what was seen on the way, and how often the source was
asked for a token, the call included that gave none. -/
structure Outcome (α : Type) where
  result : Except Error α
  events : List Event
  pulled : Nat

namespace Walk

variable {α : Type}

def start (maxDepth : Nat) (aggregate : α) : Walk α := ⟨.empty maxDepth, aggregate, none⟩

/-- A token that is no property value. Scalars here are array elements or the root, and match no
rule. -/
def stepPlain (set : RuleSet α) (walk : Walk α) (token : Token) : Except Error (Walk α) :=
  match token.kind with
  | .opening container => (walk.path.push (.anonymous container)).map ({ walk with path := · })
  | .closing _ => walk.path.pop.map fun (_, path) => { walk with path := path }
  | .propertyName =>
    .ok { walk with pending := some ⟨token.raw, set.symbols.encode token.raw⟩ }
  | .string | .number | .boolean _ | .null => .ok walk

/-- The token after a property name, which has to be a value, and the rules that fired on it. -/
def stepValue (set : RuleSet α) (walk : Walk α) (pending : Pending) (token : Token) :
    Except Error (Walk α × List Nat) :=
  match token.kind with
  | .opening container =>
    (walk.path.push (.named container pending.symbol)).map fun path =>
      (⟨path, walk.aggregate, none⟩, [])
  | _ =>
    match Scalar.ofToken? token with
    | some scalar =>
      let firing := set.dispatch ⟨scalar, pending.name, pending.symbol⟩ walk.path walk.aggregate
      .ok (⟨firing.path, firing.aggregate, none⟩, firing.fired)
    | none => .error (.malformed ⟨.expectedValue, token.start⟩)

/-- One token, and the events it gives: first the rules that fire on it, then the token itself. -/
def step (set : RuleSet α) (walk : Walk α) (pull : Pull) : Except Error (Walk α × List Event) :=
  let seen (next : Walk α) (fired : List Nat) : Walk α × List Event :=
    (next, fired.map .fired ++ [.token pull.token.kind pull.depth next.path.frames])
  match walk.pending with
  | none => (walk.stepPlain set pull.token).map (seen · [])
  | some pending =>
    (walk.stepValue set pending pull.token).map fun (next, fired) => seen next fired

/-- How a walk ends when the source gives no more tokens: with the source's error if there is one,
with an error if a name or a container is left open, and otherwise with the aggregate. -/
def finish (walk : Walk α) (failure : Option ParseError) : Except Error α :=
  match failure with
  | some error => .error (.malformed error)
  | none =>
    if walk.pending.isSome ∨ 0 < walk.path.depth then
      .error (.truncatedDocument walk.path.depth)
    else .ok walk.aggregate

/-- Walks to the end of the tokens, or to the first that is refused. -/
def run (set : RuleSet α) (failure : Option ParseError) (walk : Walk α) : List Pull → Outcome α
  | [] => ⟨walk.finish failure, [], 1⟩
  | pull :: pulls =>
    match walk.step set pull with
    | .error error => ⟨.error error, [], 1⟩
    | .ok (next, events) =>
      let outcome := next.run set failure pulls
      ⟨outcome.result, events ++ outcome.events, outcome.pulled + 1⟩

end Walk

end PathFold
