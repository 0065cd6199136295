import PathFold.Rule.Compiled

/-! Dispatch of one scalar property. The rules of the current depth are tried in order, each against
the path as the actions before it have left it, so an action that invalidates a frame keeps the rules
after it from matching through that frame. -/

namespace PathFold

open PathFold.Json (Scalar)

/-- A scalar with the raw name it stands under, and the symbol of that name. -/
structure Property where
  scalar : Scalar
  name : Bytes
  symbol : Symbol

/-- Where dispatch stands: the path, the aggregate, and the rules that have fired, in order. -/
structure Firing (α : Type) where
  path : Path
  aggregate : α
  fired : List Nat

namespace RuleSet

variable {α : Type}

/-- Runs a rule's action if it matches. Of the path, the action can only invalidate frames. -/
def tryRule (set : RuleSet α) (property : Property) (state : Firing α) (index : Nat) : Firing α :=
  match set.get? index with
  | none => state
  | some rule =>
    if rule.accepts state.path property.symbol property.scalar.kind then
      let effect := rule.action property.scalar property.name state.path.view state.aggregate
      ⟨state.path.invalidateAll effect.requests, effect.aggregate, state.fired ++ [index]⟩
    else state

def dispatch (set : RuleSet α) (property : Property) (path : Path) (aggregate : α) : Firing α :=
  (set.candidates path.depth).foldl (set.tryRule property) ⟨path, aggregate, []⟩

/-- What invalidation does not touch, a rule does not touch. -/
theorem view_tryRule {β : Type} {view : Path → β}
    (same : ∀ path indices, view (path.invalidateAll indices) = view path) (set : RuleSet α)
    (property : Property) (state : Firing α) (index : Nat) :
    view (set.tryRule property state index).path = view state.path := by
  unfold tryRule
  split
  · rfl
  · split
    · exact same _ _
    · rfl

theorem view_dispatch {β : Type} {view : Path → β}
    (same : ∀ path indices, view (path.invalidateAll indices) = view path) (set : RuleSet α)
    (property : Property) (path : Path) (aggregate : α) :
    view (set.dispatch property path aggregate).path = view path := by
  unfold dispatch
  generalize set.candidates path.depth = indices
  suffices h : ∀ state : Firing α,
      view (indices.foldl (set.tryRule property) state).path = view state.path from h _
  induction indices with
  | nil => exact fun _ => rfl
  | cons index indices ih =>
    intro state
    exact (ih _).trans (view_tryRule same set property state index)

/-- Dispatch leaves the depth of the path as it is. -/
theorem depth_dispatch (set : RuleSet α) (property : Property) (path : Path) (aggregate : α) :
    (set.dispatch property path aggregate).path.depth = path.depth :=
  view_dispatch Path.depth_invalidateAll set property path aggregate

theorem limit_dispatch (set : RuleSet α) (property : Property) (path : Path) (aggregate : α) :
    (set.dispatch property path aggregate).path.limit = path.limit :=
  view_dispatch Path.limit_invalidateAll set property path aggregate

end RuleSet

end PathFold
