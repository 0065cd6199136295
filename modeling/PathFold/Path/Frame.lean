import PathFold.Json.Container
import PathFold.Path.Symbol

/-! Frames: one for each open container on the way from the root, with the kind of the container and
the symbol of the name that opened it. A frame that has been invalidated matches nothing until its
container closes. -/

namespace PathFold

open PathFold.Json (ContainerKind)

structure Frame where
  kind : ContainerKind
  symbol : Symbol
  active : Bool
  deriving DecidableEq, Repr

namespace Frame

def named (kind : ContainerKind) (symbol : Symbol) : Frame := ⟨kind, symbol, true⟩

/-- The frame of a root or of an array element. -/
def anonymous (kind : ContainerKind) : Frame := named kind .wildcard

def invalidate (frame : Frame) : Frame := { frame with active := false }

/-- Whether a frame is open to matching and is the container that a pattern asks for. A pattern
without a name asks for a container whose name the table does not hold. -/
def fits (frame pattern : Frame) : Bool :=
  frame.active && frame.kind == pattern.kind && frame.symbol == pattern.symbol

/-- The name, unless there is none, the opening delimiter, and a mark on an invalidated frame. -/
def describe (frame : Frame) (table : SymbolTable) : String :=
  (if frame.symbol = .wildcard then "" else table.describe frame.symbol ++ ":") ++
    frame.kind.opener ++ (if frame.active then "" else "!")

def listing (frame : Frame) : String :=
  Text.listingRecord "PathSegment"
    [("kind", frame.kind.label), ("symbol", frame.symbol.listing),
      ("state", if frame.active then "Active" else "Invalidated")]

/-- Whether frames fit a pattern one by one and are as many. -/
def allFit : List Frame → List Frame → Bool
  | [], [] => true
  | frame :: frames, pattern :: patterns => frame.fits pattern && allFit frames patterns
  | _, _ => false

/-- The frames with the one at `index` invalidated, if there is one; the root is at 0. -/
def invalidateAt (frames : List Frame) (index : Nat) : List Frame :=
  frames.modify index invalidate

@[simp] theorem length_invalidateAt (frames : List Frame) (index : Nat) :
    (invalidateAt frames index).length = frames.length := by
  simp [invalidateAt]

/-- What a frame shows apart from its being active, such as its kind, is not touched. -/
theorem map_invalidateAt {β : Type} {view : Frame → β}
    (same : ∀ frame, view frame.invalidate = view frame) (frames : List Frame) (index : Nat) :
    (invalidateAt frames index).map view = frames.map view := by
  refine List.ext_getElem? fun i => ?_
  simp only [invalidateAt, List.getElem?_map, List.getElem?_modify]
  by_cases h : index = i <;> cases frames[i]? <;> simp [h, same]

/-- Just the frames at these indices become inactive, and nothing else changes. -/
theorem getElem?_foldl_invalidateAt (frames : List Frame) (indices : List Nat) (i : Nat) :
    (indices.foldl invalidateAt frames)[i]? =
      frames[i]?.map fun frame => { frame with active := frame.active && i ∉ indices } := by
  induction indices generalizing frames with
  | nil => simp
  | cons index indices ih =>
    rw [List.foldl_cons, ih, invalidateAt, List.getElem?_modify]
    cases frames[i]? with
    | none => rfl
    | some frame =>
      by_cases here : index = i
      · simp [here, invalidate]
      · simp [here, Ne.symm here]

theorem foldl_invalidateAt_eq_mapIdx (frames : List Frame) (indices : List Nat) :
    indices.foldl invalidateAt frames =
      frames.mapIdx fun i frame => { frame with active := frame.active && i ∉ indices } := by
  apply List.ext_getElem?
  intro i
  rw [getElem?_foldl_invalidateAt, List.getElem?_mapIdx]

theorem length_eq_of_allFit {frames patterns : List Frame} (h : allFit frames patterns = true) :
    frames.length = patterns.length := by
  fun_induction allFit frames patterns with
  | case1 => rfl
  | case2 frame frames pattern patterns ih =>
    have := ih (Bool.and_eq_true_iff.1 h).2
    simp [this]
  | case3 => cases h

/-- Frames fit a pattern only if all of them are active. -/
theorem active_of_allFit {frames patterns : List Frame} (h : allFit frames patterns = true) :
    ∀ frame ∈ frames, frame.active = true := by
  fun_induction allFit frames patterns with
  | case1 => simp
  | case2 frame frames pattern patterns ih =>
    obtain ⟨first, others⟩ := Bool.and_eq_true_iff.1 h
    simp only [fits, Bool.and_eq_true] at first
    exact List.forall_mem_cons.2 ⟨first.1.1, ih others⟩
  | case3 => cases h

end Frame

end PathFold
