import PathFold.Proofs.Grammar.Document
import PathFold.Proofs.Rule.Loop
import PathFold.Proofs.Rule.Waiting

/-! The fold of a parse tree. It goes through a tree by recursion, with the frames of the containers
on the way and the aggregate as its only state, and it says what reducing a document comes to. -/

namespace PathFold

open PathFold.Json (ContainerKind Entries Lexeme Scalar Tree)

variable {α : Type}

/-- Where the fold of a tree stands: the frames of the open containers, root first, and the
aggregate. -/
structure Fold (α : Type) where
  frames : List Frame
  aggregate : α

namespace Fold

/-- The turn of one rule at a scalar under a name. If it fires, the frames that its effect asks for by
their indices are inactive from then on. -/
def offer (scalar : Scalar) (name : Bytes) (symbol : Symbol) (state : Fold α)
    (rule : CompiledRule α) : Fold α :=
  if rule.Awaits state.frames symbol scalar.kind then
    let effect := rule.action scalar name (.ofFrames state.frames) state.aggregate
    ⟨state.frames.mapIdx fun i frame =>
        { frame with active := frame.active && i ∉ effect.requests }, effect.aggregate⟩
  else state

def enter (state : Fold α) (kind : ContainerKind) (symbol : Symbol) : Fold α :=
  { state with frames := state.frames ++ [⟨kind, symbol, true⟩] }

def leave (state : Fold α) : Fold α := { state with frames := state.frames.dropLast }

end Fold

/-- The symbol of a container that stands under a name, or under none. -/
def RuleSet.symbolOf (set : RuleSet α) (name : Option Bytes) : Symbol :=
  (name.map set.symbols.encode).getD .wildcard

/-- A scalar under a name is offered to all rules in the order in which they were declared, and one
under no name to none. -/
def Fold.scalar (set : RuleSet α) (name : Option Bytes) (state : Fold α) (lexeme : Lexeme) :
    Fold α :=
  match name, lexeme.kind.scalarKind? with
  | some name, some kind =>
    set.rules.foldl (Fold.offer (.ofRaw kind lexeme.raw) name (set.symbols.encode name)) state
  | _, _ => state

mutual

/-- The fold of a tree that stands under a name or under none. -/
def Fold.tree (set : RuleSet α) (name : Option Bytes) (state : Fold α) : Tree → Fold α
  | .scalar lexeme => state.scalar set name lexeme
  | .container kind entries => ((state.enter kind (set.symbolOf name)).entries set entries).leave

def Fold.entries (set : RuleSet α) (state : Fold α) : Entries → Fold α
  | .nil => state
  | .cons name value rest => (state.tree set name value).entries set rest

end

namespace Fold

theorem length_offer (scalar : Scalar) (name : Bytes) (symbol : Symbol) (state : Fold α)
    (rule : CompiledRule α) :
    (state.offer scalar name symbol rule).frames.length = state.frames.length := by
  unfold offer
  split
  · exact List.length_mapIdx
  · rfl

theorem length_offerAll (scalar : Scalar) (name : Bytes) (symbol : Symbol) (state : Fold α)
    (rules : List (CompiledRule α)) :
    (rules.foldl (offer scalar name symbol) state).frames.length = state.frames.length := by
  induction rules generalizing state with
  | nil => rfl
  | cons rule rules ih => rw [List.foldl_cons, ih, length_offer]

theorem length_scalar (set : RuleSet α) (name : Option Bytes) (state : Fold α) (lexeme : Lexeme) :
    (state.scalar set name lexeme).frames.length = state.frames.length := by
  unfold scalar
  split
  · exact length_offerAll _ _ _ _ _
  · rfl

mutual

/-- The fold of a tree comes back to the containers that it started in. -/
theorem length_tree (set : RuleSet α) (name : Option Bytes) (state : Fold α) (tree : Tree) :
    (state.tree set name tree).frames.length = state.frames.length := by
  cases tree with
  | scalar lexeme => exact length_scalar set name state lexeme
  | container kind entries =>
    have inner := length_entries set (state.enter kind (set.symbolOf name)) entries
    rw [Fold.tree, leave, List.length_dropLast, inner]
    simp [enter]

theorem length_entries (set : RuleSet α) (state : Fold α) (entries : Entries) :
    (state.entries set entries).frames.length = state.frames.length := by
  cases entries with
  | nil => rfl
  | cons name value rest =>
    rw [Fold.entries, length_entries set _ rest, length_tree set name state value]

end

/-- The state that a firing of rules has come to. -/
def ofFiring (firing : Firing α) : Fold α := ⟨firing.path.frames, firing.aggregate⟩

theorem ofFiring_tryRule {set : RuleSet α} {index : Nat} {rule : CompiledRule α}
    (h : set.rules[index]? = some rule) (property : Property) (firing : Firing α) :
    ofFiring (set.tryRule property firing index) =
      (ofFiring firing).offer property.scalar property.name property.symbol rule := by
  rw [RuleSet.tryRule_of_getElem? h, offer]
  have same := rule.accepts_iff_awaits firing.path property.symbol property.scalar.kind
  by_cases awaits : rule.Awaits (ofFiring firing).frames property.symbol property.scalar.kind
  · rw [if_pos (same.2 awaits), if_pos awaits]
    exact congrArg (Fold.mk · _) (Frame.foldl_invalidateAt_eq_mapIdx ..)
  · rw [if_neg (mt same.1 awaits), if_neg awaits]

/-- Dispatch offers the scalar to all rules in order. -/
theorem ofFiring_dispatch {set : RuleSet α} (filed : set.Filed) (property : Property) (path : Path)
    (aggregate : α) : ofFiring (set.dispatch property path aggregate) =
      set.rules.foldl (offer property.scalar property.name property.symbol)
        ⟨path.frames, aggregate⟩ := by
  rw [RuleSet.dispatch_eq_tryAll filed, RuleSet.tryAll]
  -- The loop goes over indices and the fold over rules: at each turn the index is that of the rule.
  suffices go : ∀ (l : List (CompiledRule α × Nat)) (firing : Firing α),
      (∀ entry ∈ l, set.rules[entry.2]? = some entry.1) →
      ofFiring (l.foldl (fun state entry => set.tryRule property state entry.2) firing) =
        (l.map (·.1)).foldl (offer property.scalar property.name property.symbol)
          (ofFiring firing) by
    have whole := go set.rules.zipIdx ⟨path, aggregate, []⟩ fun _ => RuleSet.getElem?_of_mem_zipIdx
    rwa [List.zipIdx_map_fst] at whole
  intro l
  induction l with
  | nil => exact fun _ _ => rfl
  | cons entry l ih =>
    intro firing known
    have turn := ofFiring_tryRule (known entry List.mem_cons_self) property firing
    rw [List.foldl_cons, ih _ fun _ mem => known _ (List.mem_cons_of_mem _ mem), turn,
      List.map_cons, List.foldl_cons]

end Fold

end PathFold
